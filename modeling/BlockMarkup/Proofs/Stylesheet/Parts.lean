import BlockMarkup.Proofs.Stylesheet.Braces
import BlockMarkup.Stylesheet.Writer

/-! # Parts of stylesheets

Texts that may hold line feeds are put together to a text, blanks at its end are cut off, and the
outcome may be one of the texts for the next part. `Part texts rules` says of the lines of some texts
that they are nested, that the rules they open outermost are `rules`, and that the marked lines are
not among them. Parts that end with an empty text are kept by joining (`Paragraphs.joined`), because
nothing but the line feed before it is cut off then.
-/

namespace BlockMarkup

open Text (isBlank trimLeft linesOf)
open Braces (Braceless Nested Opens Closes Quiet isComment)

namespace StylesheetWriter

/-! ## Lines of texts -/

/-- The lines of some texts. -/
def linesOfAll (texts : List String) : List (List Char) := texts.flatMap fun s => linesOf s.toList

theorem linesOfAll_append (a b : List String) : linesOfAll (a ++ b) = linesOfAll a ++ linesOfAll b :=
  List.flatMap_append

theorem linesOfAll_text (s : String) : linesOfAll [s] = linesOf s.toList := List.flatMap_singleton ..

theorem linesOfAll_singleton {s : String} (h : '\n' ∉ s.toList) : linesOfAll [s] = [s.toList] := by
  rw [linesOfAll_text, Text.linesOf_of_notMem h]

/-! ## Lines at a level -/

theorem toList_line (level : Nat) (s : String) :
    (line level s).toList = List.replicate (2 * level) ' ' ++ s.toList := by
  simp [line, indent]

theorem trimLeft_line (level : Nat) (s : String) :
    trimLeft (line level s).toList = trimLeft s.toList := by
  have hblanks : ∀ c ∈ List.replicate (2 * level) ' ', isBlank c = true := by
    intro c hc
    rw [List.eq_of_mem_replicate hc]
    rfl
  rw [toList_line, trimLeft, List.dropWhile_append_of_pos hblanks]
  rfl

theorem isComment_line (level : Nat) (s : String) :
    isComment (line level s).toList = isComment s.toList := by
  rw [isComment, trimLeft_line]
  rfl

/-- The blanks before a line hold none of the characters that matter. -/
theorem mem_line {c : Char} (hc : c ≠ ' ') {level : Nat} {s : String} :
    c ∈ (line level s).toList ↔ c ∈ s.toList := by
  rw [toList_line, List.mem_append]
  exact or_iff_right fun h => hc (List.eq_of_mem_replicate h)

theorem braceless_line {level : Nat} {s : String} :
    Braceless (line level s).toList ↔ Braceless s.toList := by
  rw [Braceless, mem_line (by decide), mem_line (by decide)]
  rfl

/-! ## Names and selectors -/

/-- The text stays on its line and has no braces. -/
def Plain (s : String) : Prop := '\n' ∉ s.toList ∧ Braceless s.toList

instance (s : String) : Decidable (Plain s) := inferInstanceAs (Decidable (_ ∧ _))

theorem plain_iff {s : String} : Plain s ↔ ∀ c ∈ ['\n', '\x7b', '\x7d'], c ∉ s.toList := by
  simp [Plain, Braceless]

theorem Plain.append {s t : String} (hs : Plain s) (ht : Plain t) : Plain (s ++ t) := by
  rw [plain_iff] at hs ht ⊢
  intro c hc
  rw [String.toList_append, List.mem_append, not_or]
  exact ⟨hs c hc, ht c hc⟩

/-- What may stand before the brace of a rule. -/
structure Head (s : String) : Prop where
  plain : Plain s
  not_comment : isComment s.toList = false

/-- A brace behind a text makes it no comment. -/
theorem isComment_append_brace (s : List Char) :
    isComment (s ++ [' ', '\x7b']) = isComment s := by
  induction s with
  | nil => rfl
  | cons c s ih =>
    by_cases hc : isBlank c = true
    · rw [isComment, isComment, trimLeft, trimLeft, List.cons_append, List.dropWhile_cons_of_pos hc,
        List.dropWhile_cons_of_pos hc]
      exact ih
    · rw [isComment, isComment, trimLeft, trimLeft, List.cons_append, List.dropWhile_cons_of_neg hc,
        List.dropWhile_cons_of_neg hc]
      cases s with
      | nil => simp [List.isPrefixOf]
      | cons c' s => rfl

theorem toList_opening (level : Nat) (s : String) :
    (opening level s).toList = (line level s).toList ++ [' '] ++ ['\x7b'] := by
  simp [opening, line]

theorem Head.opens {s : String} (h : Head s) (level : Nat) : Opens (opening level s).toList where
  not_comment := by
    rw [toList_opening, List.append_assoc]
    exact (isComment_append_brace _).trans ((isComment_line level s).trans h.not_comment)
  brace_last := by
    have hline : Braceless (line level s).toList := braceless_line.mpr h.plain.2
    refine ⟨(line level s).toList ++ [' '], ?_, toList_opening level s⟩
    simpa [Braceless] using hline

theorem closes_closing (level : Nat) : Closes (closing level).toList where
  not_comment := (isComment_line level "\x7d").trans rfl
  brace_last := by
    have hblanks : Braceless (line level "").toList := braceless_line.mpr (by decide)
    rw [toList_line] at hblanks
    refine ⟨List.replicate (2 * level) ' ', ?_, toList_line level "\x7d"⟩
    simpa using hblanks

theorem newline_notMem_opening {s : String} (h : Head s) (level : Nat) :
    '\n' ∉ (opening level s).toList := by
  have hline : '\n' ∉ (line level s).toList := by
    rw [mem_line (by decide)]
    exact h.plain.1
  rw [toList_opening]
  simpa using hline

theorem newline_notMem_closing (level : Nat) : '\n' ∉ (closing level).toList := by
  rw [closing, mem_line (by decide)]
  decide

/-! ## Marked lines -/

/-- The line is none of the two marked ones. -/
def Unmarked (line : List Char) : Prop :=
  trimLeft line ≠ sharedMarker.toList ∧ trimLeft line ≠ interactionMarker.toList

instance (line : List Char) : Decidable (Unmarked line) := inferInstanceAs (Decidable (_ ∧ _))

theorem unmarked_line {level : Nat} {s : String} :
    Unmarked (line level s).toList ↔ Unmarked s.toList := by
  rw [Unmarked, trimLeft_line]
  rfl

/-- A line with a character that is in none of the marked lines is none of them. -/
theorem unmarked_of_mem {c : Char} {line : List Char} (h : c ∈ line) (hblank : isBlank c = false)
    (hmarked : c ∉ sharedMarker.toList ∧ c ∉ interactionMarker.toList) : Unmarked line := by
  have hkept : c ∈ trimLeft line := by
    rw [← List.takeWhile_append_dropWhile (p := isBlank) (l := line), List.mem_append] at h
    refine h.resolve_left fun hcut => ?_
    rw [List.all_eq_true.mp List.all_takeWhile c hcut] at hblank
    cases hblank
  exact ⟨fun he => hmarked.1 (he ▸ hkept), fun he => hmarked.2 (he ▸ hkept)⟩

/-- In the marked lines a hyphen comes after the slashes and a blank. -/
theorem unmarked_of_fourth {line : List Char} (h : (trimLeft line)[3]? ≠ some '-') :
    Unmarked line := by
  have hmarked : sharedMarker.toList[3]? = some '-' ∧ interactionMarker.toList[3]? = some '-' := by
    decide
  exact ⟨fun he => h (he ▸ hmarked.1), fun he => h (he ▸ hmarked.2)⟩

theorem unmarked_opening (level : Nat) (s : String) : Unmarked (opening level s).toList := by
  apply unmarked_of_mem (c := '\x7b')
  · rw [toList_opening]
    exact List.mem_append_right _ List.mem_cons_self
  · rfl
  · decide

theorem unmarked_closing (level : Nat) : Unmarked (closing level).toList :=
  unmarked_line.mpr (unmarked_of_fourth (by decide))

/-! ## Parts -/

/-- Texts whose lines are nested, with these outermost rules, and hold no marked line. -/
structure Part (texts rules : List String) : Prop where
  nested : Nested (linesOfAll texts) (rules.map String.toList)
  unmarked : ∀ l ∈ linesOfAll texts, Unmarked l

/-- A line that is none of the marked ones and that no rule begins or ends with. -/
structure Still (s : String) : Prop where
  oneLine : '\n' ∉ s.toList
  quiet : Quiet s.toList
  unmarked : Unmarked s.toList

theorem Still.line {s : String} (h : Still s) (level : Nat) : Still (line level s) where
  oneLine := by
    rw [mem_line (by decide)]
    exact h.oneLine
  quiet := h.quiet.imp (isComment_line level s).trans braceless_line.mpr
  unmarked := unmarked_line.mpr h.unmarked

theorem still_empty : Still "" := ⟨by decide, .nil, unmarked_of_fourth (by decide)⟩

theorem linesOfAll_of_still {texts : List String} (h : ∀ s ∈ texts, Still s) :
    linesOfAll texts = texts.map String.toList := by
  rw [linesOfAll, List.map_eq_flatMap]
  exact List.flatMap_congr fun s hs => Text.linesOf_of_notMem (h s hs).oneLine

/-- A directive of the language. -/
theorem still_of_plain {s : String} (h : Plain s) (hat : '@' ∈ s.toList) : Still s where
  oneLine := h.1
  quiet := Or.inr h.2
  unmarked := unmarked_of_mem hat rfl (by decide)

/-- A comment that is a line, and not like the marked ones. -/
def Note (s : String) : Prop :=
  '\n' ∉ s.toList ∧ isComment s.toList = true ∧ (trimLeft s.toList)[3]? ≠ some '-'

instance (s : String) : Decidable (Note s) := inferInstanceAs (Decidable (_ ∧ _ ∧ _))

theorem Note.still {s : String} (h : Note s) : Still s :=
  ⟨h.1, Or.inl h.2.1, unmarked_of_fourth h.2.2⟩

namespace Part

variable {a b rules rules' : List String}

theorem nil : Part [] [] := ⟨.nil, by intro l hl; cases hl⟩

theorem append (ha : Part a rules) (hb : Part b rules') : Part (a ++ b) (rules ++ rules') where
  nested := by
    rw [linesOfAll_append, List.map_append]
    exact ha.nested.append hb.nested
  unmarked := by
    intro l hl
    rw [linesOfAll_append, List.mem_append] at hl
    exact hl.elim (ha.unmarked l) (hb.unmarked l)

theorem still {s : String} (h : Still s) : Part [s] [] := by
  have hlines := linesOfAll_singleton h.oneLine
  constructor
  · rw [hlines]
    exact .quiet h.quiet
  · rw [hlines]
    intro l hl
    rw [List.mem_singleton.mp hl]
    exact h.unmarked

theorem note {s : String} (h : Note s) (level : Nat) : Part [line level s] [] :=
  .still (h.still.line level)

/-- A rule around a part. -/
theorem rule {s : String} (hs : Head s) (level : Nat) (h : Part a rules) :
    Part (opening level s :: a ++ [closing level]) [opening level s] := by
  have hopen := linesOfAll_singleton (newline_notMem_opening hs level)
  have hclose := linesOfAll_singleton (newline_notMem_closing level)
  have hlines : linesOfAll (opening level s :: a ++ [closing level]) =
      (opening level s).toList :: linesOfAll a ++ [(closing level).toList] := by
    rw [linesOfAll_append, hclose, ← List.singleton_append, linesOfAll_append, hopen]
    rfl
  constructor
  · rw [hlines]
    exact h.nested.rule (hs.opens level) (closes_closing level)
  · intro l hl
    rw [hlines, List.cons_append, List.mem_cons, List.mem_append, List.mem_singleton] at hl
    rcases hl with rfl | hl | rfl
    · exact unmarked_opening level s
    · exact h.unmarked l hl
    · exact unmarked_closing level

end Part

/-! ## Parts that are joined -/

/-- The text ends with a character that is no blank. -/
def Solid (s : String) : Prop := s.toList.getLast?.any (!isBlank ·) = true

instance (s : String) : Decidable (Solid s) := inferInstanceAs (Decidable (_ = true))

theorem Solid.exists_last {s : String} (h : Solid s) :
    ∃ t c, s.toList = t ++ [c] ∧ isBlank c = false := by
  unfold Solid at h
  rcases hlast : s.toList.getLast? with _ | c
  · rw [hlast] at h
    cases h
  · rcases List.getLast?_eq_some_iff.mp hlast with ⟨t, ht⟩
    exact ⟨t, c, ht, by simpa [hlast] using h⟩

theorem Solid.append_left {s : String} (h : Solid s) (t : String) : Solid (t ++ s) := by
  rcases h.exists_last with ⟨u, c, hs, hc⟩
  rw [Solid, String.toList_append, hs, ← List.append_assoc, List.getLast?_append]
  simp [hc]

theorem Solid.line {s : String} (h : Solid s) (level : Nat) : Solid (line level s) :=
  h.append_left (indent level)

/-- The texts end with a solid one and an empty one. -/
def Trailing (texts : List String) : Prop :=
  ∃ before text, texts = before ++ [text, ""] ∧ Solid text

theorem Trailing.append_left {a : List String} (h : Trailing a) (b : List String) :
    Trailing (b ++ a) := by
  rcases h with ⟨before, text, rfl, htext⟩
  exact ⟨b ++ before, text, by rw [List.append_assoc], htext⟩

theorem Trailing.append_right {a b : List String} (h : Trailing a) (hb : b = [] ∨ Trailing b) :
    Trailing (a ++ b) := by
  rcases hb with rfl | hb
  · rw [List.append_nil]
    exact h
  · exact hb.append_left a

theorem trailing_append {a b : List String} (ha : a = [] ∨ Trailing a) (hb : b = [] ∨ Trailing b) :
    a ++ b = [] ∨ Trailing (a ++ b) := by
  rcases ha with rfl | ha
  · exact hb
  · exact Or.inr (ha.append_right hb)

theorem trailing_flatMap {α : Type} {xs : List α} {f : α → List String}
    (h : ∀ x ∈ xs, Trailing (f x)) : xs.flatMap f = [] ∨ Trailing (xs.flatMap f) := by
  induction xs with
  | nil => exact Or.inl rfl
  | cons x xs ih =>
    rw [List.forall_mem_cons] at h
    rw [List.flatMap_cons]
    exact trailing_append (Or.inr h.1) (ih h.2)

/-- Joining cuts off nothing but an empty text behind a solid one. -/
theorem joinLines_of_solid (before : List String) {text : String} (h : Solid text) :
    joinLines (before ++ [text, ""]) = "\n".intercalate (before ++ [text]) := by
  rcases h.exists_last with ⟨s, c, htext, hc⟩
  have hcut : before ++ [text, ""] = before ++ [text] ++ [""] := by rw [List.append_assoc]; rfl
  -- the last character but the line feed is the one that is no blank
  obtain ⟨t, ht⟩ : ∃ t, ("\n".intercalate (before ++ [text])).toList = t ++ [c] := by
    rw [Text.toList_intercalate, List.map_append]
    cases before with
    | nil => exact ⟨s, htext⟩
    | cons b before =>
      rw [Text.joined_append (by simp) (by simp)]
      refine ⟨Text.joined ((b :: before).map String.toList) ++ '\n' :: s, ?_⟩
      rw [List.append_assoc, List.cons_append, ← htext]
      rfl
  have hjoined : ("\n".intercalate (before ++ [text] ++ [""])).toList = t ++ [c] ++ ['\n'] := by
    rw [← ht, Text.toList_intercalate, Text.toList_intercalate, List.map_append,
      Text.joined_append (by simp) (by simp)]
    rfl
  have hfeed : isBlank '\n' = true := rfl
  rw [← String.toList_inj, hcut, ht, joinLines, hjoined, String.toList_ofList, List.reverse_append,
    List.reverse_append, trimLeft, List.reverse_singleton, List.singleton_append,
    List.dropWhile_cons_of_pos hfeed, List.reverse_singleton, List.singleton_append,
    List.dropWhile_cons_of_neg (by simp [hc]), List.reverse_cons, List.reverse_reverse]

/-- Of such texts joining cuts off the last line, which is empty. -/
theorem Trailing.linesOfAll_eq {texts : List String} (h : Trailing texts) :
    linesOfAll texts = linesOf (joinLines texts).toList ++ [[]] := by
  rcases h with ⟨before, text, rfl, hsolid⟩
  have hcut : before ++ [text, ""] = before ++ [text] ++ [""] := by rw [List.append_assoc]; rfl
  rw [joinLines_of_solid before hsolid, Text.linesOf_intercalate_flatMap (by simp), hcut,
    linesOfAll_append]
  rfl

/-- A part that may be followed by others, and by the end of the texts that are joined. -/
structure Paragraphs (texts rules : List String) : Prop where
  part : Part texts rules
  trailing : texts = [] ∨ Trailing texts

namespace Paragraphs

variable {a b rules rules' : List String}

theorem nil : Paragraphs [] [] := ⟨.nil, Or.inl rfl⟩

theorem append (ha : Paragraphs a rules) (hb : Paragraphs b rules') :
    Paragraphs (a ++ b) (rules ++ rules') where
  part := ha.part.append hb.part
  trailing := trailing_append ha.trailing hb.trailing

theorem flatMap {α : Type} {xs : List α} {f g : α → List String}
    (h : ∀ x ∈ xs, Paragraphs (f x) (g x)) : Paragraphs (xs.flatMap f) (xs.flatMap g) := by
  induction xs with
  | nil => exact .nil
  | cons x xs ih =>
    rw [List.forall_mem_cons] at h
    rw [List.flatMap_cons, List.flatMap_cons]
    exact h.1.append (ih h.2)

/-- A part and an empty line. -/
theorem of_part {text : String} (h : Part (a ++ [text]) rules) (htext : Solid text) :
    Paragraphs (a ++ [text, ""]) rules where
  part := by
    have happend : a ++ [text, ""] = a ++ [text] ++ [""] := by rw [List.append_assoc]; rfl
    rw [happend, ← List.append_nil rules]
    exact h.append (.still still_empty)
  trailing := Or.inr ⟨a, text, rfl, htext⟩

/-- A rule around a part, and an empty line. -/
theorem rule {s : String} (hs : Head s) (level : Nat) (h : Part a rules) :
    Paragraphs (opening level s :: a ++ [closing level, ""]) [opening level s] :=
  .of_part (h.rule hs level) (Solid.line (by decide) level)

/-- What is joined is a part again. -/
theorem joined (h : Paragraphs a rules) (hne : a ≠ []) : Part [joinLines a] rules := by
  have hlines := (h.trailing.resolve_left hne).linesOfAll_eq
  constructor
  · rw [linesOfAll_text]
    apply Nested.of_append_blank
    rw [← hlines]
    exact h.part.nested
  · rw [linesOfAll_text]
    intro l hl
    apply h.part.unmarked
    rw [hlines]
    exact List.mem_append_left _ hl

end Paragraphs

end StylesheetWriter

end BlockMarkup
