import BlockMarkup.Proofs.Naming.CaseWords
import BlockMarkup.Proofs.Regex.Progress

/-! # Words of a name, told by patterns

The words of a name are what three replacements leave of it, one after the other (`splitWords_eq`): a blank
for each row of hyphens and underscores, a blank between a small letter or digit and a capital, and a blank
before the last capital of a row that a small letter follows. A match takes what it has consumed away from
the next one, so for each of them it has to be seen that no place for a blank is passed over.
-/

namespace BlockMarkup

namespace Regex

open Cursor (spot)

variable {r : Regex} {R : Cursor → Cursor → Prop} {set : CharSet} {b c : Char} {s : List Char}

theorem yields_group (h : Yields (run r) R) (i : Nat) :
    Yields (run (.group i r)) fun s u => ∃ v, R s v ∧ v.after = u.after := by
  refine (h.group i).weaken ?_
  rintro s u ⟨v, hv, rfl⟩
  exact ⟨v, hv, rfl⟩

theorem yields_many1 (set : CharSet) : Yields (run (.many1 set)) fun s u =>
    ∃ cs, s.after = cs ++ u.after ∧ cs ≠ [] ∧ ∀ c ∈ cs, set.contains c = true := by
  refine (yields_span_least set 1 none .greedy).weaken ?_
  rintro s u ⟨cs, hafter, hle, hset⟩
  exact ⟨cs, hafter, List.ne_nil_of_length_pos hle, hset⟩

/-- A row of a set can be left at its end, or one character before that. -/
theorem exists_stops_row (hset : ∀ c ∈ s, set.contains c = true) (hb : set.contains b = true)
    (hc : set.contains c = false) (before rest : List Char) (groups : List (Nat × Capture)) :
    ∃ init, init.length = s.length ∧
      stops set none before (s ++ b :: c :: rest) before.length groups =
        init ++ [spot (s.reverse ++ before) (b :: c :: rest) groups,
          spot (b :: (s.reverse ++ before)) (c :: rest) groups] := by
  induction s generalizing before with
  | nil =>
    refine ⟨[], rfl, ?_⟩
    rw [List.nil_append, stops, hb, stops, hc]
    rfl
  | cons a s ih =>
    rw [List.forall_mem_cons] at hset
    obtain ⟨init, hinit, hstops⟩ := ih hset.2 (a :: before)
    refine ⟨spot before (a :: (s ++ b :: c :: rest)) groups :: init, by simp [hinit], ?_⟩
    have hnext : before.length + 1 = (a :: before).length := rfl
    rw [List.cons_append, stops, hset.1, Option.map_none, hnext, hstops, List.reverse_cons, List.append_assoc]
    rfl

end Regex

namespace FileName

open Text (isBlank wordsFrom wordsOf)
open BlockMarkup.Regex (Capture CharSet Cursor Eats Rewrites run stops yields_group yields_many1 yields_one)
open BlockMarkup.Regex.Cursor (spot)

variable {a b c d : Char} {s u v rest before : List Char}

/-! ## The patterns -/

/-- A row of hyphens and underscores. -/
def markRow : Regex := .many1 (.ofList ['-', '_'])

/-- A capital behind a small letter or digit. -/
def risingCase : Regex :=
  .seq (.group 1 (.one LetterClass.lowerDigit.set)) (.group 2 (.one LetterClass.upper.set))

/-- A capital that a small letter follows. -/
def lastCapital : Regex :=
  .group 2 (.seq (.one LetterClass.upper.set) (.one LetterClass.lower.set))

/-- A row of capitals, and one more that a small letter follows. -/
def fallingCase : Regex := .seq (.group 1 (.many1 LetterClass.upper.set)) lastCapital

/-- The two groups of a match, with a blank between them. -/
def apart (m : Regex.Match) : List Char := m.group 1 ++ ' ' :: m.group 2

/-! ## Blanks between neighbours -/

/-- Puts a blank between two neighbours wherever the test, which sees the character behind them too, says
so. -/
def breakWhere (ends : Char → Char → Option Char → Bool) : List Char → List Char
  | a :: b :: rest =>
    a :: ((if ends a b rest.head? then [' '] else []) ++ breakWhere ends (b :: rest))
  | s => s

/-- A small letter or digit and a capital. -/
def rises (a b : Char) (_ : Option Char) : Bool := isLowerOrDigit a && b.isUpper

/-- Two capitals, and a small letter behind them. -/
def falls (a b : Char) (next : Option Char) : Bool := a.isUpper && b.isUpper && next.any Char.isLower

variable {ends : Char → Char → Option Char → Bool}

theorem breakCase_eq_breakWhere (s : List Char) : breakCase s = breakWhere endsBetween s := by
  fun_induction breakCase s with
  | case1 a b rest hends ih => rw [breakWhere, if_pos hends, ih]; rfl
  | case2 a b rest hends ih => rw [breakWhere, if_neg hends, ih]; rfl
  | case3 s hshort => rw [breakWhere]; exact hshort

theorem breakWhere_cons (h : ∀ b next, ends a b next = false) (s : List Char) :
    breakWhere ends (a :: s) = a :: breakWhere ends s := by
  cases s with
  | nil => rfl
  | cons b s => rw [breakWhere, h, if_neg Bool.false_ne_true, List.nil_append]

theorem head?_breakWhere (ends : Char → Char → Option Char → Bool) (s : List Char) :
    (breakWhere ends s).head? = s.head? := by
  match s with
  | [] => rfl
  | [_] => rfl
  | _ :: _ :: _ => rfl

theorem rises_of_isUpper (h : a.isUpper = true) (b : Char) (next : Option Char) : rises a b next = false := by
  have hsmall : isLowerOrDigit a = false := by
    by_contra hsmall
    have hcapital := Text.isUpper_of_isLowerOrDigit (by simpa using hsmall)
    simp [h] at hcapital
  rw [rises, hsmall, Bool.false_and]

theorem falls_of_not_isUpper (h : a.isUpper = false) (b : Char) (next : Option Char) :
    falls a b next = false := by
  rw [falls, h, Bool.false_and, Bool.false_and]

theorem endsBetween_eq (a b : Char) (next : Option Char) :
    endsBetween a b next = (rises a b next || falls a b next) := rfl

/-- A blank of the first kind changes nothing for the second. -/
theorem falls_breakWhere_rises (ha : breakWhere rises (b :: rest) = b :: s) :
    falls a b s.head? = falls a b rest.head? := by
  cases hb : b.isUpper with
  | true =>
    rw [breakWhere_cons (rises_of_isUpper hb)] at ha
    rw [← (List.cons.inj ha).2, head?_breakWhere]
  | false => simp [falls, hb]

theorem breakWhere_falls_rises (s : List Char) :
    breakWhere falls (breakWhere rises s) = breakWhere endsBetween s := by
  match s with
  | [] => rfl
  | [_] => rfl
  | a :: b :: rest =>
    have ih := breakWhere_falls_rises (b :: rest)
    obtain ⟨t, ht⟩ : ∃ t, breakWhere rises (b :: rest) = b :: t :=
      List.head?_eq_some_iff.mp (head?_breakWhere rises (b :: rest))
    rw [ht] at ih
    rw [breakWhere, breakWhere, endsBetween_eq, ht, ← ih]
    cases hrises : rises a b rest.head? with
    | true =>
      have ha : a.isUpper = false := Text.isUpper_of_isLowerOrDigit (Bool.and_eq_true_iff.mp hrises).1
      exact (breakWhere_cons (falls_of_not_isUpper ha) _).trans
        (congrArg (a :: ·) (breakWhere_cons (falls_of_not_isUpper rfl) _))
    | false =>
      rw [if_neg Bool.false_ne_true, List.nil_append, breakWhere, falls_breakWhere_rises ht,
        Bool.false_or]

/-! ## Small letters and capitals -/

theorem eats_risingCase (ha : isLowerOrDigit a = true) (hb : b.isUpper = true) (before rest : List Char) :
    Eats risingCase [a, b] before rest [] [(2, .of [b] rest), (1, .of [a] (b :: rest))] := by
  have hfirst : Eats _ [a] before (b :: rest) [] [] :=
    Regex.eats_one (LetterClass.contains_lowerDigit.trans ha)
  exact hfirst.group.seq (Regex.eats_one (LetterClass.contains_upper.trans hb)).group

theorem exists_of_risingCase {t : Cursor} (h : run risingCase (spot before s []) some = some t) :
    ∃ a b rest, s = a :: b :: rest ∧ rises a b rest.head? = true := by
  obtain ⟨v, ⟨v', ⟨a, ha, hafter, -⟩, hv⟩, u', ⟨b, hb, hafter', -⟩, hu⟩ :=
    ((yields_group (yields_one _) 1).seq (yields_group (yields_one _) 2)).rel h
  rw [LetterClass.contains_lowerDigit] at ha
  rw [LetterClass.contains_upper] at hb
  refine ⟨a, b, t.after, ?_, Bool.and_eq_true_iff.mpr ⟨ha, hb⟩⟩
  rw [← hu, ← hafter', ← hv]
  exact hafter

theorem rewrites_risingCase (before s : List Char) :
    Rewrites risingCase apart before s (breakWhere rises s) := by
  have hnone : ∀ before, (∀ a b rest, s = a :: b :: rest → rises a b rest.head? = false) →
      run risingCase (spot before s []) some = none := by
    intro before hs
    rw [Option.eq_none_iff_forall_ne_some]
    intro t ht
    obtain ⟨a, b, rest, rfl, hrises⟩ := exists_of_risingCase ht
    simp [hs a b rest rfl] at hrises
  match s with
  | [] => exact .nil (hnone _ (by simp))
  | [a] => exact .skip (hnone _ (by simp)) (rewrites_risingCase _ [])
  | a :: b :: rest =>
    cases hrises : rises a b rest.head? with
    | true =>
      -- the match consumes the capital too, which begins no other one
      obtain ⟨ha, hb⟩ := Bool.and_eq_true_iff.mp hrises
      have hhit := Rewrites.hit (f := apart) (List.cons_ne_nil a [b])
        (eats_risingCase ha hb before rest some _ rfl) (rewrites_risingCase _ rest)
      rw [breakWhere, hrises, breakWhere_cons (rises_of_isUpper hb)]
      exact hhit
    | false =>
      rw [breakWhere, hrises, if_neg Bool.false_ne_true, List.nil_append]
      exact .skip (hnone _ fun a' b' rest' heq => by cases heq; exact hrises) (rewrites_risingCase _ _)
termination_by s.length

/-! ## Rows of capitals -/

/-- A row of capitals, one more capital and a small letter. -/
structure IsRow (cs : List Char) (b c : Char) : Prop where
  ne_nil : cs ≠ []
  capitals : ∀ d ∈ cs, d.isUpper = true
  last : b.isUpper = true
  small : c.isLower = true

theorem eats_lastCapital (hb : b.isUpper = true) (hc : c.isLower = true) (before rest : List Char)
    (groups : List (Nat × Capture)) : Eats lastCapital [b, c] before rest groups
      ((2, .of [b, c] rest) :: groups.filter (·.1 != 2)) :=
  ((Regex.eats_one (LetterClass.contains_upper.trans hb)).seq
    (Regex.eats_one (LetterClass.contains_lower.trans hc))).group

/-- The row is given up by one capital, which the small letter behind it needs. -/
theorem run_fallingCase (h : IsRow s b c) (before rest : List Char) :
    run fallingCase (spot before (s ++ b :: c :: rest) []) some =
      some (spot (c :: b :: (s.reverse ++ before)) rest
        [(2, .of [b, c] rest), (1, .of s (b :: c :: rest))]) := by
  have hset : ∀ c ∈ s, LetterClass.upper.set.contains c = true := fun c hc =>
    LetterClass.contains_upper.trans (h.capitals c hc)
  have hsmall : LetterClass.upper.set.contains c = false :=
    LetterClass.contains_upper.trans (Text.isUpper_of_isLower h.small)
  obtain ⟨init, hinit, hstops⟩ :=
    Regex.exists_stops_row hset (LetterClass.contains_upper.trans h.last) hsmall before rest []
  have hlength : 1 ≤ init.length := hinit ▸ List.length_pos_iff.mpr h.ne_nil
  have hrun : run fallingCase (spot before (s ++ b :: c :: rest) []) some =
      List.findSome? (fun u => run lastCapital ((spot before (s ++ b :: c :: rest) []).record u 1) some)
        ((stops LetterClass.upper.set none before (s ++ b :: c :: rest) before.length []).drop 1).reverse := rfl
  -- behind the whole row there is no capital left, but there is one behind the row without its last
  have hwhole : run lastCapital ((spot before (s ++ b :: c :: rest) []).record
      (spot (b :: (s.reverse ++ before)) (c :: rest) []) 1) some = none :=
    (Regex.refuses_one fun d hd => by cases hd; exact hsmall).seq.group some
  have hback : run lastCapital ((spot before (s ++ b :: c :: rest) []).record
      (spot (s.reverse ++ before) (b :: c :: rest) []) 1) some =
        some (spot (c :: b :: (s.reverse ++ before)) rest
          [(2, .of [b, c] rest), (1, .of s (b :: c :: rest))]) := by
    rw [Cursor.record_spot]
    exact eats_lastCapital h.last h.small _ _ _ some _ rfl
  rw [hrun, hstops, List.drop_append_of_le_length hlength, List.reverse_append, List.reverse_cons,
    List.reverse_singleton, List.singleton_append, List.cons_append, List.findSome?_cons, hwhole,
    List.singleton_append, List.findSome?_cons, hback]

theorem exists_of_fallingCase {t : Cursor} (h : run fallingCase (spot before s []) some = some t) :
    ∃ cs b c rest, s = cs ++ b :: c :: rest ∧ IsRow cs b c := by
  obtain ⟨v, ⟨v', ⟨cs, hafter, hne, hcs⟩, hv⟩, u', ⟨w, ⟨b, hb, hb', -⟩, c, hc, hc', -⟩, hu⟩ :=
    ((yields_group (yields_many1 _) 1).seq
      (yields_group ((yields_one _).seq (yields_one _)) 2)).rel h
  refine ⟨cs, b, c, t.after, ?_, hne, fun d hd => LetterClass.contains_upper.symm.trans (hcs d hd),
    LetterClass.contains_upper.symm.trans hb, LetterClass.contains_lower.symm.trans hc⟩
  rw [← hu, ← hc', ← hb', ← hv]
  exact hafter

/-- In a row there is one place for a blank, where the match puts it. -/
theorem breakWhere_falls_row (h : IsRow s b c) (rest : List Char) :
    breakWhere falls (s ++ b :: c :: rest) = s ++ ' ' :: b :: c :: breakWhere falls rest := by
  obtain ⟨hne, hs, hb, hc⟩ := h
  have hsmall : c.isUpper = false := Text.isUpper_of_isLower hc
  induction s with
  | nil => exact absurd rfl hne
  | cons a s ih =>
    rw [List.forall_mem_cons] at hs
    cases s with
    | nil =>
      have hends : falls a b (c :: rest).head? = true := by simp [falls, hs.1, hb, hc]
      have hgoes : falls b c rest.head? = false := by simp [falls, hsmall]
      rw [List.singleton_append, breakWhere, hends, if_pos rfl, breakWhere, hgoes,
        if_neg Bool.false_ne_true, List.nil_append, breakWhere_cons (falls_of_not_isUpper hsmall)]
      rfl
    | cons d s =>
      -- inside of the row capitals follow, so that the blank is not put in there
      have hnext : ∀ e, (s ++ b :: c :: rest).head? = some e → e.isUpper = true := by
        intro e he
        cases s with
        | nil => cases he; exact hb
        | cons e' s => cases he; exact hs.2 _ (by simp)
      have hgoes : falls a d (s ++ b :: c :: rest).head? = false := by
        cases hhead : (s ++ b :: c :: rest).head? with
        | none => simp [falls]
        | some e => simp [falls, Text.isLower_of_isUpper (hnext e hhead)]
      have hrest := ih (List.cons_ne_nil d s) hs.2
      rw [List.cons_append] at hrest
      rw [List.cons_append, List.cons_append, breakWhere, hgoes, if_neg Bool.false_ne_true, hrest]
      rfl

theorem rewrites_fallingCase (before s : List Char) :
    Rewrites fallingCase apart before s (breakWhere falls s) := by
  by_cases hrow : ∃ cs b c rest, s = cs ++ b :: c :: rest ∧ IsRow cs b c
  · obtain ⟨cs, b, c, rest, rfl, hrow⟩ := hrow
    have hbehind : c :: b :: (cs.reverse ++ before) = (cs ++ [b, c]).reverse ++ before := by simp
    have hsplit : cs ++ b :: c :: rest = (cs ++ [b, c]) ++ rest := by simp
    have hrun := run_fallingCase hrow before rest
    rw [hbehind, hsplit] at hrun
    have hhit := Rewrites.hit (f := apart) (by simp) hrun (rewrites_fallingCase _ rest)
    rw [apart, Regex.Match.group_eq rfl, Regex.Match.group_eq rfl, ← hsplit, List.append_assoc] at hhit
    rw [breakWhere_falls_row hrow]
    exact hhit
  · have hnone : run fallingCase (spot before s []) some = none :=
      Option.eq_none_iff_forall_ne_some.mpr fun t ht => hrow (exists_of_fallingCase ht)
    match s with
    | [] => exact .nil hnone
    | [a] => exact .skip hnone (rewrites_fallingCase _ [])
    | a :: b :: rest =>
      -- two capitals and a small letter would be a row
      have hgoes : falls a b rest.head? = false := by
        cases rest with
        | nil => simp [falls]
        | cons c rest =>
          by_contra hfalls
          simp only [falls, List.head?_cons, Option.any_some, Bool.not_eq_false, Bool.and_eq_true] at hfalls
          exact hrow ⟨[a], b, c, rest, rfl, by simp, by simpa using hfalls.1.1, hfalls.1.2, hfalls.2⟩
      rw [breakWhere, hgoes, if_neg Bool.false_ne_true, List.nil_append]
      exact .skip hnone (rewrites_fallingCase _ _)
termination_by s.length

/-! ## Rows of blanks -/

/-- The second text is the first one with one space for some of its rows of blanks. -/
inductive Narrows : List Char → List Char → Prop where
  | nil : Narrows [] []
  | cons {u v : List Char} (c : Char) (h : Narrows u v) : Narrows (c :: u) (c :: v)
  | row {bs u v : List Char} (hne : bs ≠ []) (hbs : ∀ c ∈ bs, isBlank c = true) (h : Narrows u v) :
      Narrows (bs ++ u) (' ' :: v)

theorem Narrows.wordsFrom (h : Narrows u v) (word : List Char) :
    Text.wordsFrom word u = Text.wordsFrom word v := by
  induction h generalizing word with
  | nil => rfl
  | cons c _ ih => rw [Text.wordsFrom, Text.wordsFrom, ih, ih]
  | row hne hbs _ ih =>
    rw [Text.wordsFrom_blank_run hne hbs, Text.wordsFrom, Text.wordsFrom, ih, ih]

theorem not_letter_of_isBlank (h : isBlank c = true) : c.isUpper = false ∧ isLowerOrDigit c = false := by
  have hletter : ¬ (c.isUpper = true ∨ isLowerOrDigit c = true) := by
    intro hletter
    rw [Text.isBlank_of_isAlphanum (Text.isAlphanum_iff.mpr hletter)] at h
    cases h
  simpa using hletter

theorem endsBetween_of_isBlank (h : isBlank a = true) (b : Char) (next : Option Char) :
    endsBetween a b next = false := by
  obtain ⟨hupper, hsmall⟩ := not_letter_of_isBlank h
  simp [endsBetween, hupper, hsmall]

theorem endsBetween_isBlank (h : isBlank b = true) (a : Char) (next : Option Char) :
    endsBetween a b next = false := by
  simp [endsBetween, (not_letter_of_isBlank h).1]

theorem breakWhere_blanks {bs : List Char} (h : ∀ c ∈ bs, isBlank c = true) (s : List Char) :
    breakWhere endsBetween (bs ++ s) = bs ++ breakWhere endsBetween s := by
  induction bs with
  | nil => rfl
  | cons b bs ih =>
    rw [List.forall_mem_cons] at h
    rw [List.cons_append, breakWhere_cons (endsBetween_of_isBlank h.1), ih h.2]
    rfl

theorem Narrows.isLower_head? (h : Narrows u v) : u.head?.any Char.isLower = v.head?.any Char.isLower := by
  cases h with
  | nil => rfl
  | cons => rfl
  | @row bs u v hne hbs _ =>
    obtain ⟨b, bs, rfl⟩ := List.exists_cons_of_ne_nil hne
    have hsmall := (not_letter_of_isBlank (hbs b List.mem_cons_self)).2
    exact (Bool.or_eq_false_iff.mp hsmall).1

/-- Rows of blanks stay where they are when other blanks are put in. -/
theorem Narrows.breakWhere (h : Narrows u v) :
    Narrows (breakWhere endsBetween u) (breakWhere endsBetween v) := by
  induction h with
  | nil => exact .nil
  | @row bs u v hne hbs _ ih =>
    have hspace : isBlank ' ' = true := rfl
    rw [breakWhere_blanks hbs, breakWhere_cons (endsBetween_of_isBlank hspace)]
    exact .row hne hbs ih
  | @cons u v c h ih =>
    cases h with
    | nil => exact .cons c .nil
    | @cons u v d h =>
      rw [FileName.breakWhere, FileName.breakWhere, endsBetween, h.isLower_head?, ← endsBetween]
      cases endsBetween c d v.head? with
      | true => exact .cons c (.cons ' ' ih)
      | false => exact .cons c ih
    | @row bs u v hne hbs h =>
      obtain ⟨b, bs, rfl⟩ := List.exists_cons_of_ne_nil hne
      have hstays := endsBetween_isBlank (hbs b List.mem_cons_self) c (bs ++ u).head?
      have hstays' : endsBetween c ' ' v.head? = false := endsBetween_isBlank (by decide) c v.head?
      rw [List.cons_append] at ih ⊢
      rw [FileName.breakWhere, FileName.breakWhere, hstays, hstays']
      exact .cons c ih

/-- A hyphen or underscore. -/
def IsMark (c : Char) : Prop := c = '-' ∨ c = '_'

theorem contains_marks : (CharSet.ofList ['-', '_']).contains c = true ↔ IsMark c := by
  simp [CharSet.contains_ofList, IsMark]

theorem isBlank_of_mem_breakMarks {cs : List Char} (h : ∀ c ∈ cs, IsMark c) :
    ∀ c ∈ breakMarks cs, isBlank c = true := by
  intro c hc
  obtain ⟨d, hd, rfl⟩ := List.mem_map.mp hc
  rw [if_pos (by simpa [IsMark] using h d hd)]
  rfl

/-- A row of marks is found wherever one stands. -/
theorem run_markRow_ne_none (hc : IsMark c) (before rest : List Char) :
    run markRow (spot before (c :: rest) []) some ≠ none := by
  obtain ⟨cs, rest, rfl, hcs, hends⟩ := Regex.exists_run (CharSet.ofList ['-', '_']).contains rest
  have hrow : Eats markRow (c :: cs) before rest [] [] :=
    Regex.eats_span (List.forall_mem_cons.mpr ⟨contains_marks.mpr hc, hcs⟩) (by simp) rfl hends
  exact fun hnone => Option.some_ne_none _ ((hrow some _ rfl).symm.trans hnone)

theorem narrows_of_rewrites (h : Rewrites markRow (fun _ => [' ']) before s u) :
    Narrows (breakMarks s) u := by
  induction h with
  | nil => exact .nil
  | @skip before rest out c hnone _ ih =>
    have hc : ¬ IsMark c := fun hc => run_markRow_ne_none hc before rest hnone
    have hstays : breakMarks (c :: rest) = c :: breakMarks rest := by
      rw [breakMarks, List.map_cons, if_neg (by simpa [IsMark] using hc)]
      rfl
    exact hstays ▸ .cons c ih
  | @hit before cs rest out groups hne hrun _ ih =>
    obtain ⟨cs', hafter, -, hmarks⟩ := (yields_many1 _).rel hrun
    obtain rfl : cs = cs' := List.append_cancel_right hafter
    have hsplit : breakMarks (cs ++ rest) = breakMarks cs ++ breakMarks rest := List.map_append
    have hblanks := isBlank_of_mem_breakMarks fun c hc => contains_marks.mp (hmarks c hc)
    exact hsplit ▸ .row (by simpa [breakMarks] using hne) hblanks ih

/-- The words of a class name, by patterns. -/
theorem splitWords_eq (name : String) : splitWords name =
    (wordsOf (fallingCase.replaceAll apart (risingCase.replaceAll apart
      (markRow.replaceAll (fun _ => [' ']) name.toList)))).map String.ofList := by
  have hnarrows : Narrows (breakMarks name.toList) (markRow.replaceAll (fun _ => [' ']) name.toList) :=
    narrows_of_rewrites (Regex.rewrites_replaceAll (by decide) _ _)
  rw [(rewrites_risingCase _ _).replaceAll, (rewrites_fallingCase _ _).replaceAll,
    breakWhere_falls_rises, splitWords, breakCase_eq_breakWhere]
  exact congrArg (List.map String.ofList) (hnarrows.breakWhere.wordsFrom [])

end FileName

end BlockMarkup
