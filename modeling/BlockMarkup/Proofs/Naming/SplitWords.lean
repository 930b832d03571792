import BlockMarkup.Proofs.Naming.CaseWords

/-! # Words of a name

A name is cut at hyphens, underscores and blanks, and where the letter case says that a word ends. Nothing
but these separators is lost, and no word goes on behind a small letter or digit with a capital
(`splitWords_lossless`).
-/

namespace BlockMarkup.FileName

open Text (isBlank wordsFrom wordsOf)

variable {a b c : Char} {s w : List Char}

/-! ## Nothing is lost but separators -/

/-- The characters that stand between words: hyphens, underscores and blanks. -/
def isSeparator (c : Char) : Bool := c == '-' || c == '_' || isBlank c

/-- A mark becomes a blank, so it is lost as a blank is. -/
theorem filter_breakMarks (s : List Char) :
    (breakMarks s).filter (fun c => !isBlank c) = s.filter fun c => !isSeparator c := by
  induction s with
  | nil => rfl
  | cons c s ih =>
    rw [breakMarks, List.map_cons]
    change List.filter _ (_ :: breakMarks s) = _
    cases hmark : c == '-' || c == '_' with
    | true =>
      have hlost : isSeparator c = true := by rw [isSeparator, hmark, Bool.true_or]
      rw [if_pos rfl, List.filter_cons_of_neg (by decide), ih, List.filter_cons_of_neg (by simp [hlost])]
    | false =>
      have hkept : isSeparator c = isBlank c := by rw [isSeparator, hmark, Bool.false_or]
      rw [if_neg (by decide), List.filter_cons, List.filter_cons, hkept, ih]

theorem wordsOf_breaks_flatten (s : List Char) :
    (wordsOf (breakCase (breakMarks s))).flatten = s.filter fun c => !isSeparator c := by
  rw [Text.wordsOf_flatten, filter_breakCase rfl, filter_breakMarks]

/-! ## Words end where the letter case says so -/

/-- Between neighbours in a word: no capital stands behind a small letter or digit. -/
def GoesOn (a b : Char) : Prop := b.isUpper = true → isLowerOrDigit a = false

theorem goesOn_of_not_endsBetween {next : Option Char} (h : endsBetween a b next = false) :
    GoesOn a b := by
  intro hupper
  rw [endsBetween, hupper, Bool.and_true, Bool.or_eq_false_iff] at h
  exact h.1

/-- Wherever a word would have to end, there is a blank. -/
theorem goesOn_breakCase (s : List Char) : (breakCase s).IsChain GoesOn := by
  fun_induction breakCase s with
  | case1 a b rest _ ih =>
    obtain ⟨t, ht⟩ := head?_breakCase b rest
    rw [ht] at ih ⊢
    have hbefore : GoesOn a ' ' := fun h => absurd h (by decide)
    have hbehind : GoesOn ' ' b := fun _ => rfl
    exact List.isChain_cons_cons.mpr ⟨hbefore, List.isChain_cons_cons.mpr ⟨hbehind, ih⟩⟩
  | case2 a b rest hends ih =>
    obtain ⟨t, ht⟩ := head?_breakCase b rest
    rw [ht] at ih ⊢
    exact List.isChain_cons_cons.mpr ⟨goesOn_of_not_endsBetween (by simpa using hends), ih⟩
  | case3 s hshort =>
    rcases s with _ | ⟨a, _ | ⟨b, rest⟩⟩
    · exact List.isChain_nil
    · exact List.isChain_singleton a
    · exact absurd rfl (hshort a b rest)

/-- A word is one piece of its text; `word` holds what has been read of it. -/
theorem infix_of_mem_wordsFrom {word : List Char} (h : w ∈ wordsFrom word s) :
    w <:+: word.reverse ++ s := by
  induction s generalizing word with
  | nil =>
    rw [wordsFrom] at h
    split at h
    · cases h
    · rw [List.mem_singleton.mp h, List.append_nil]
  | cons c s ih =>
    have hrest : w ∈ wordsFrom [] s → w <:+: word.reverse ++ c :: s := fun h =>
      (ih h).trans ⟨word.reverse ++ [c], [], by simp⟩
    rw [wordsFrom] at h
    split at h
    · split at h
      · exact hrest h
      · rcases List.mem_cons.mp h with rfl | h
        · exact (List.prefix_append _ _).isInfix
        · exact hrest h
    · simpa using ih h

theorem infix_of_mem_wordsOf (h : w ∈ wordsOf s) : w <:+: s := infix_of_mem_wordsFrom h

theorem isSeparator_of_mem_word (hw : w ∈ wordsOf (breakCase (breakMarks s))) (hc : c ∈ w) :
    isSeparator c = false := by
  have hkept : c ∈ (wordsOf (breakCase (breakMarks s))).flatten := List.mem_flatten.mpr ⟨w, hw, hc⟩
  rw [wordsOf_breaks_flatten, List.mem_filter] at hkept
  simpa using hkept.2

/-- Put together, the words of a name are the name without its hyphens, underscores and blanks. No word
is empty or has one of these in it, and in no word a capital stands behind a small letter or digit. -/
theorem splitWords_lossless (name : String) :
    String.join (splitWords name) = String.ofList (name.toList.filter fun c => !isSeparator c) ∧
    ∀ w ∈ splitWords name, w ≠ "" ∧ (∀ c ∈ w.toList, isSeparator c = false) ∧
      ∀ a b, [a, b] <:+: w.toList → b.isUpper = true → a.isLower = false ∧ a.isDigit = false := by
  constructor
  · apply String.toList_injective
    rw [String.toList_join, splitWords, List.flatMap_map, String.toList_ofList, ← wordsOf_breaks_flatten,
      List.flatten_eq_flatMap]
    exact List.flatMap_congr fun w _ => String.toList_ofList
  · intro w hw
    obtain ⟨cs, hcs, rfl⟩ := List.mem_map.mp hw
    have hne : cs ≠ [] := Text.wordsFrom_ne_nil _ [] cs hcs
    -- a word is a piece of the text with the blanks put in
    have hchain : cs.IsChain GoesOn := by
      obtain ⟨u, v, huv⟩ := infix_of_mem_wordsOf hcs
      have hall : (u ++ cs ++ v).IsChain GoesOn := huv ▸ goesOn_breakCase _
      exact hall.left_of_append.right_of_append
    rw [String.toList_ofList]
    refine ⟨by simpa using hne, fun c hc => isSeparator_of_mem_word hcs hc, fun a b hab hupper => ?_⟩
    obtain ⟨u, v, rfl⟩ := hab
    have hpair : [a, b].IsChain GoesOn := hchain.left_of_append.right_of_append
    have hsmall : isLowerOrDigit a = false := List.isChain_pair.mp hpair hupper
    exact Bool.or_eq_false_iff.mp hsmall

end BlockMarkup.FileName
