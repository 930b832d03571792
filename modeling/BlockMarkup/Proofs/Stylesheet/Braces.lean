import Mathlib.Data.List.Basic
import BlockMarkup.Proofs.Text.Lines
import BlockMarkup.Text.Blank

/-! # Nested rules

How the lines of a stylesheet are read: lines that begin with two slashes are comments, and in the
others a brace opens or closes a rule. `Nested` says of some lines that they close every rule they
open and no other, and which rules they open that stand in none of theirs. It is kept when lines are
put after one another (`Nested.append`) and when they become the inside of a rule (`Nested.rule`).
-/

namespace BlockMarkup

open Text (isBlank trimLeft)

namespace Braces

/-! ## Reading -/

/-- Whether a line is a comment: its first characters that are no blanks are two slashes. -/
def isComment (line : List Char) : Bool :=
  "//".toList.isPrefixOf (trimLeft line)

/-- What stands outside of comments. -/
def code (lines : List (List Char)) : List Char :=
  (lines.filter (!isComment ·)).flatten

/-- How many more braces a text opens than it closes. -/
def depth (s : List Char) : Int :=
  s.count '\x7b' - s.count '\x7d'

/-- The depths at which a text opens braces, `d` being the depth before it. -/
def openings (d : Int) : List Char → List Int
  | [] => []
  | c :: rest =>
    if c = '\x7b' then d :: openings (d + 1) rest
    else if c = '\x7d' then openings (d - 1) rest
    else openings d rest

/-- The lines that open rules at the depth `goal`, `d` being the depth before all of them. -/
def rulesAt (goal d : Int) : List (List Char) → List (List Char)
  | [] => []
  | line :: rest =>
    if isComment line then rulesAt goal d rest
    else ((openings d line).filter (· == goal)).map (fun _ => line) ++
      rulesAt goal (d + depth line) rest

theorem openings_open (d : Int) (rest : List Char) :
    openings d ('\x7b' :: rest) = d :: openings (d + 1) rest := rfl

theorem openings_close (d : Int) (rest : List Char) :
    openings d ('\x7d' :: rest) = openings (d - 1) rest := rfl

theorem openings_cons (d : Int) {c : Char} (hopen : c ≠ '\x7b') (hclose : c ≠ '\x7d')
    (rest : List Char) : openings d (c :: rest) = openings d rest := by
  show (if c = '\x7b' then _ else if c = '\x7d' then _ else openings d rest) = openings d rest
  rw [if_neg hopen, if_neg hclose]

theorem rulesAt_comment {line : List Char} (h : isComment line = true) (goal d : Int)
    (rest : List (List Char)) : rulesAt goal d (line :: rest) = rulesAt goal d rest :=
  if_pos h

theorem rulesAt_cons {line : List Char} (h : isComment line = false) (goal d : Int)
    (rest : List (List Char)) : rulesAt goal d (line :: rest) =
      ((openings d line).filter (· == goal)).map (fun _ => line) ++
        rulesAt goal (d + depth line) rest :=
  if_neg (by rw [h]; exact Bool.false_ne_true)

/-- No text up to some point closes more braces than it and `d` others open. -/
def StaysAbove (d : Int) (s : List Char) : Prop :=
  ∀ p, p <+: s → 0 ≤ d + depth p

/-- Text that has no braces. -/
def Braceless (s : List Char) : Prop :=
  '\x7b' ∉ s ∧ '\x7d' ∉ s

instance (s : List Char) : Decidable (Braceless s) := inferInstanceAs (Decidable (_ ∧ _))

/-! ## Depth -/

theorem depth_nil : depth [] = 0 := rfl

theorem depth_append (s t : List Char) : depth (s ++ t) = depth s + depth t := by
  unfold depth
  rw [List.count_append, List.count_append]
  omega

theorem Braceless.depth_eq {s : List Char} (h : Braceless s) : depth s = 0 := by
  rw [depth, List.count_eq_zero.mpr h.1, List.count_eq_zero.mpr h.2]
  rfl

theorem Braceless.of_prefix {p s : List Char} (h : Braceless s) (hp : p <+: s) : Braceless p :=
  ⟨fun hmem => h.1 (hp.subset hmem), fun hmem => h.2 (hp.subset hmem)⟩

/-- A prefix of two texts ends in the first or in the second. -/
theorem prefix_append_cases {p s t : List Char} (h : p <+: s ++ t) :
    p <+: s ∨ ∃ q, q <+: t ∧ p = s ++ q := by
  rcases List.prefix_or_prefix_of_prefix h (List.prefix_append s t) with h' | ⟨q, rfl⟩
  · exact Or.inl h'
  · exact Or.inr ⟨q, (List.prefix_append_right_inj s).mp h, rfl⟩

theorem StaysAbove.append {d : Int} {s t : List Char} (hs : StaysAbove d s)
    (ht : StaysAbove (d + depth s) t) : StaysAbove d (s ++ t) := by
  intro p hp
  rcases prefix_append_cases hp with hp | ⟨q, hq, rfl⟩
  · exact hs p hp
  · rw [depth_append, ← Int.add_assoc]
    exact ht q hq

theorem StaysAbove.mono {d d' : Int} {s : List Char} (h : StaysAbove d s) (hd : d ≤ d') :
    StaysAbove d' s := by
  intro p hp
  have := h p hp
  omega

theorem Braceless.staysAbove {s : List Char} (h : Braceless s) {d : Int} (hd : 0 ≤ d) :
    StaysAbove d s := by
  intro p hp
  rw [(h.of_prefix hp).depth_eq]
  omega

/-! ## Lines after one another -/

theorem code_append (a b : List (List Char)) : code (a ++ b) = code a ++ code b := by
  rw [code, List.filter_append, List.flatten_append]
  rfl

theorem code_cons (line : List Char) (rest : List (List Char)) :
    code (line :: rest) = (if isComment line then [] else line) ++ code rest := by
  unfold code
  cases h : isComment line <;> simp [h]

theorem rulesAt_append (goal d : Int) (a b : List (List Char)) :
    rulesAt goal d (a ++ b) = rulesAt goal d a ++ rulesAt goal (d + depth (code a)) b := by
  induction a generalizing d with
  | nil =>
    show rulesAt goal d b = rulesAt goal (d + 0) b
    rw [Int.add_zero]
  | cons line rest ih =>
    rw [List.cons_append, code_cons]
    cases h : isComment line with
    | true => rw [rulesAt_comment h, rulesAt_comment h, ih, if_pos rfl, List.nil_append]
    | false =>
      rw [rulesAt_cons h, rulesAt_cons h, ih, if_neg Bool.false_ne_true, depth_append,
        List.append_assoc, Int.add_assoc]

theorem Braceless.openings_eq {s : List Char} (h : Braceless s) (d : Int) : openings d s = [] := by
  induction s with
  | nil => rfl
  | cons c s ih =>
    rcases h with ⟨hopen, hclose⟩
    rw [List.mem_cons, not_or] at hopen hclose
    rw [openings_cons d (Ne.symm hopen.1) (Ne.symm hclose.1)]
    exact ih ⟨hopen.2, hclose.2⟩

theorem openings_append (d : Int) (s t : List Char) :
    openings d (s ++ t) = openings d s ++ openings (d + depth s) t := by
  induction s generalizing d with
  | nil =>
    show openings d t = openings (d + 0) t
    rw [Int.add_zero]
  | cons c s ih =>
    have hstep : depth (c :: s) = depth [c] + depth s := depth_append [c] s
    rw [List.cons_append, hstep, ← Int.add_assoc]
    by_cases hopen : c = '\x7b'
    · have hdepth : depth ['\x7b'] = 1 := rfl
      rw [hopen, openings_open, openings_open, ih, hdepth]
      rfl
    · by_cases hclose : c = '\x7d'
      · have hdepth : depth ['\x7d'] = -1 := rfl
        rw [hclose, openings_close, openings_close, ih, hdepth, Int.sub_eq_add_neg]
      · have hdepth : depth [c] = 0 :=
          Braceless.depth_eq ⟨by simpa using Ne.symm hopen, by simpa using Ne.symm hclose⟩
        rw [openings_cons d hopen hclose, openings_cons d hopen hclose, ih, hdepth, Int.add_zero]

/-! ## Kinds of lines -/

/-- A line that no rule begins or ends with. -/
def Quiet (line : List Char) : Prop :=
  isComment line ∨ Braceless line

instance (line : List Char) : Decidable (Quiet line) := inferInstanceAs (Decidable (_ ∨ _))

/-- A line that is no comment and has one brace, which is its end. -/
structure EndsIn (brace : Char) (line : List Char) : Prop where
  not_comment : isComment line = false
  brace_last : ∃ s, Braceless s ∧ line = s ++ [brace]

/-- A line that opens a rule. -/
abbrev Opens (line : List Char) : Prop := EndsIn '\x7b' line

/-- A line that closes a rule. -/
abbrev Closes (line : List Char) : Prop := EndsIn '\x7d' line

theorem code_singleton (line : List Char) : code [line] = if isComment line then [] else line := by
  rw [code_cons]
  exact List.append_nil _

theorem staysAbove_singleton {d : Int} {c : Char} (hd : 0 ≤ d) (hc : 0 ≤ d + depth [c]) :
    StaysAbove d [c] := by
  intro p hp
  rcases List.prefix_cons_iff.mp hp with rfl | ⟨t, rfl, ht⟩
  · rw [depth_nil]
    omega
  · rw [List.prefix_nil.mp ht]
    exact hc

namespace Quiet

variable {line : List Char}

theorem nil : Quiet [] := Or.inr ⟨List.not_mem_nil, List.not_mem_nil⟩

theorem rulesAt_eq (h : Quiet line) (goal d : Int) : rulesAt goal d [line] = [] := by
  cases hcomment : isComment line with
  | true => exact rulesAt_comment hcomment goal d []
  | false =>
    have hbraceless := h.resolve_left (by rw [hcomment]; exact Bool.false_ne_true)
    rw [rulesAt_cons hcomment, hbraceless.openings_eq]
    rfl

theorem braceless (h : Quiet line) : Braceless (code [line]) := by
  rw [code_singleton]
  split
  · exact ⟨List.not_mem_nil, List.not_mem_nil⟩
  · rename_i hcomment
    exact h.resolve_left hcomment

/-- Lines that no rule begins or ends with open none, at any depth. -/
theorem rulesAt_all {lines : List (List Char)} (h : ∀ l ∈ lines, Quiet l) (goal d : Int) :
    rulesAt goal d lines = [] := by
  induction lines generalizing d with
  | nil => rfl
  | cons l rest ih =>
    rw [List.forall_mem_cons] at h
    rw [← List.singleton_append, rulesAt_append, h.1.rulesAt_eq, ih h.2, List.append_nil]

end Quiet

namespace EndsIn

variable {brace : Char} {line : List Char}

theorem code_eq (h : EndsIn brace line) : code [line] = line := by
  rw [code_singleton, h.not_comment]
  rfl

theorem depth_eq (h : EndsIn brace line) : depth (code [line]) = depth [brace] := by
  rw [h.code_eq]
  rcases h.brace_last with ⟨s, hs, rfl⟩
  rw [depth_append, hs.depth_eq, Int.zero_add]

theorem staysAbove (h : EndsIn brace line) {d : Int} (hd : 0 ≤ d) (hbrace : 0 ≤ d + depth [brace]) :
    StaysAbove d (code [line]) := by
  rw [h.code_eq]
  rcases h.brace_last with ⟨s, hs, rfl⟩
  apply (hs.staysAbove hd).append
  rw [hs.depth_eq, Int.add_zero]
  exact staysAbove_singleton hd hbrace

theorem openings_eq (h : EndsIn brace line) (d : Int) : openings d line = openings d [brace] := by
  rcases h.brace_last with ⟨s, hs, rfl⟩
  rw [openings_append, hs.openings_eq, hs.depth_eq, Int.add_zero, List.nil_append]

end EndsIn

theorem Opens.rulesAt_eq {line : List Char} (h : Opens line) (goal d : Int) :
    rulesAt goal d [line] = if d = goal then [line] else [] := by
  have hopenings : openings d line = [d] := h.openings_eq d
  have hnone : rulesAt goal (d + depth line) [] = [] := rfl
  rw [rulesAt_cons h.not_comment, hopenings, hnone]
  by_cases hd : d = goal <;> simp [hd]

theorem Closes.rulesAt_eq {line : List Char} (h : Closes line) (goal d : Int) :
    rulesAt goal d [line] = [] := by
  have hopenings : openings d line = [] := h.openings_eq d
  rw [rulesAt_cons h.not_comment, hopenings]
  rfl

/-! ## Nested lines -/

/-- Lines that close the rules they open and no others; `rules` are the lines of those that stand
in no other. -/
structure Nested (lines rules : List (List Char)) : Prop where
  above : StaysAbove 0 (code lines)
  closed : depth (code lines) = 0
  rules_eq : ∀ d, rulesAt d d lines = rules
  deeper : ∀ goal d, goal < d → rulesAt goal d lines = []

namespace Nested

variable {a b rules rules' : List (List Char)}

theorem nil : Nested [] [] where
  above := Braceless.staysAbove ⟨List.not_mem_nil, List.not_mem_nil⟩ (Int.le_refl 0)
  closed := rfl
  rules_eq _ := rfl
  deeper _ _ _ := rfl

theorem quiet {line : List Char} (h : Quiet line) : Nested [line] [] where
  above := h.braceless.staysAbove (Int.le_refl 0)
  closed := h.braceless.depth_eq
  rules_eq d := h.rulesAt_eq d d
  deeper goal d _ := h.rulesAt_eq goal d

theorem append (ha : Nested a rules) (hb : Nested b rules') : Nested (a ++ b) (rules ++ rules') where
  above := by
    rw [code_append]
    apply ha.above.append
    rw [ha.closed]
    exact hb.above
  closed := by
    rw [code_append, depth_append, ha.closed, hb.closed]
    rfl
  rules_eq d := by
    rw [rulesAt_append, ha.closed, Int.add_zero, ha.rules_eq, hb.rules_eq]
  deeper goal d hd := by
    rw [rulesAt_append, ha.closed, Int.add_zero, ha.deeper goal d hd, hb.deeper goal d hd]
    rfl

theorem of_quiet (h : ∀ l ∈ a, Quiet l) : Nested a [] := by
  induction a with
  | nil => exact .nil
  | cons l rest ih =>
    rw [List.forall_mem_cons] at h
    exact (quiet h.1).append (ih h.2)

/-- A rule around nested lines. All of them stand deeper than the rule itself. -/
theorem rule {first last : List Char} (hfirst : Opens first) (hlast : Closes last)
    (h : Nested a rules) : Nested (first :: a ++ [last]) [first] := by
  have hcode : code (first :: a ++ [last]) = code [first] ++ (code a ++ code [last]) := by
    rw [← code_append, ← code_append]
    rfl
  have hrules : ∀ goal d, rulesAt goal d (first :: a ++ [last]) =
      (if d = goal then [first] else []) ++ rulesAt goal (d + 1) a := by
    intro goal d
    have happend : first :: a ++ [last] = [first] ++ (a ++ [last]) := rfl
    rw [happend, rulesAt_append, rulesAt_append, Opens.rulesAt_eq hfirst, hfirst.depth_eq,
      Closes.rulesAt_eq hlast, List.append_nil]
    rfl
  constructor
  · rw [hcode]
    apply (hfirst.staysAbove (Int.le_refl 0) (by decide)).append
    rw [hfirst.depth_eq]
    apply (h.above.mono (by decide)).append
    rw [h.closed]
    exact hlast.staysAbove (by decide) (by decide)
  · rw [hcode, depth_append, depth_append, hfirst.depth_eq, h.closed, hlast.depth_eq]
    rfl
  · intro d
    rw [hrules, if_pos rfl, h.deeper d (d + 1) (by omega), List.append_nil]
  · intro goal d hd
    rw [hrules, if_neg (by omega), h.deeper goal (d + 1) (by omega)]
    rfl

/-- An empty line at the end makes no difference. -/
theorem of_append_blank (h : Nested (a ++ [[]]) rules) : Nested a rules := by
  have hcode : code (a ++ [[]]) = code a := by
    rw [code_append]
    exact List.append_nil _
  have hrules : ∀ goal d, rulesAt goal d (a ++ [[]]) = rulesAt goal d a := by
    intro goal d
    rw [rulesAt_append, Quiet.nil.rulesAt_eq, List.append_nil]
  constructor
  · exact hcode ▸ h.above
  · exact hcode ▸ h.closed
  · intro d
    rw [← hrules, h.rules_eq]
  · intro goal d hd
    rw [← hrules, h.deeper goal d hd]

end Nested

end Braces

end BlockMarkup
