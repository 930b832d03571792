import BlockMarkup.Proofs.Text.Signs

/-! # Words and their joins

Splitting a text at blanks undoes joining words by them (`words_intercalate`), and changing the case
of a word leaves it a word.
-/

namespace BlockMarkup.Text

/-- A text that is one piece when it is split at blanks. -/
def IsWord (s : String) : Prop := s ≠ "" ∧ ∀ c ∈ s.toList, isBlank c = false

instance (s : String) : Decidable (IsWord s) :=
  decidable_of_iff (s ≠ "" ∧ s.toList.all (fun c => !isBlank c) = true) (by simp [IsWord])

variable {s t : String}

theorem isWord_of_mem_words (h : t ∈ words s) : IsWord t := by
  refine ⟨?_, isBlank_of_mem_words h⟩
  rcases List.mem_map.mp h with ⟨cs, hcs, rfl⟩
  have hne := wordsFrom_ne_nil s.toList [] cs hcs
  simpa using hne

/-- A word after other characters that are no blanks. -/
theorem IsWord.of_append (hs : ∀ c ∈ s.toList, isBlank c = false) (ht : IsWord t) :
    IsWord (s ++ t) := by
  refine ⟨?_, ?_⟩
  · intro h
    rw [String.append_eq_empty_iff] at h
    exact ht.1 h.2
  · intro c hc
    rw [String.toList_append, List.mem_append] at hc
    rcases hc with hc | hc
    · exact hs c hc
    · exact ht.2 c hc

/-! ## Splitting -/

/-- The letters of a word are collected until a blank. -/
theorem wordsFrom_append {cs : List Char} (h : ∀ c ∈ cs, isBlank c = false)
    (word rest : List Char) :
    wordsFrom word (cs ++ rest) = wordsFrom (cs.reverse ++ word) rest := by
  induction cs generalizing word with
  | nil => rfl
  | cons c cs ih =>
    rw [List.forall_mem_cons] at h
    rw [List.cons_append, wordsFrom, if_neg (by simp [h.1]), ih h.2, List.reverse_cons,
      List.append_assoc]
    rfl

/-- Blanks before a word are passed over. -/
theorem wordsFrom_blanks {cs : List Char} (h : ∀ c ∈ cs, isBlank c = true) (rest : List Char) :
    wordsFrom [] (cs ++ rest) = wordsFrom [] rest := by
  induction cs with
  | nil => rfl
  | cons c cs ih =>
    rw [List.forall_mem_cons] at h
    rw [List.cons_append, wordsFrom, if_pos h.1, List.isEmpty_nil, if_pos rfl, ih h.2]

/-- Several blanks end a word as one does. -/
theorem wordsFrom_blank_run {cs : List Char} (hne : cs ≠ []) (h : ∀ c ∈ cs, isBlank c = true)
    (word rest : List Char) : wordsFrom word (cs ++ rest) = wordsFrom word (' ' :: rest) := by
  obtain ⟨c, cs, rfl⟩ := List.exists_cons_of_ne_nil hne
  rw [List.forall_mem_cons] at h
  have hspace : isBlank ' ' = true := rfl
  rw [List.cons_append, wordsFrom, wordsFrom, if_pos h.1, if_pos hspace, wordsFrom_blanks h.2]

theorem wordsOf_append_space {cs : List Char} (hne : cs ≠ [])
    (h : ∀ c ∈ cs, isBlank c = false) (rest : List Char) :
    wordsOf (cs ++ ' ' :: rest) = cs :: wordsOf rest := by
  have hword : (cs.reverse ++ []).isEmpty = false := by simpa using hne
  rw [wordsOf, wordsFrom_append h, wordsFrom, if_pos (by decide), hword, List.append_nil,
    List.reverse_reverse]
  rfl

theorem wordsOf_self {cs : List Char} (hne : cs ≠ []) (h : ∀ c ∈ cs, isBlank c = false) :
    wordsOf cs = [cs] := by
  have hsplit := wordsFrom_append h [] []
  rw [List.append_nil, List.append_nil] at hsplit
  rw [wordsOf, hsplit, wordsFrom, if_neg (by simpa using hne), List.reverse_reverse]

/-- Joined texts: the first one, and each of the others behind a separator. -/
theorem intercalate_cons_flatMap (sep : Char) (w : List Char) (ws : List (List Char)) :
    [sep].intercalate (w :: ws) = w ++ ws.flatMap (sep :: ·) := by
  induction ws generalizing w with
  | nil => simp
  | cons v ws ih => rw [List.intercalate_cons_cons, ih, List.append_assoc, List.flatMap_cons]; rfl

/-- Of texts that are joined by blanks, those are found again that are not empty. -/
theorem wordsOf_intercalate_filter {ws : List (List Char)}
    (h : ∀ w ∈ ws, ∀ c ∈ w, isBlank c = false) :
    wordsOf ([' '].intercalate ws) = ws.filter fun w => !w.isEmpty := by
  induction ws with
  | nil => rfl
  | cons w rest ih =>
    rw [List.forall_mem_cons] at h
    obtain ⟨hblank, hrest⟩ := h
    by_cases hne : w = []
    · subst hne
      have hskip : wordsOf ([' '].intercalate ([] :: rest)) = wordsOf ([' '].intercalate rest) := by
        cases rest with
        | nil => rfl
        | cons v rest => rfl
      rw [hskip, ih hrest, List.filter_cons_of_neg (by decide)]
    · rw [List.filter_cons_of_pos (by simpa using hne), ← ih hrest]
      cases rest with
      | nil =>
        have hone : [' '].intercalate [w] = w := List.intercalate_singleton
        rw [hone, wordsOf_self hne hblank]
        rfl
      | cons v rest =>
        have hjoin : [' '].intercalate (w :: v :: rest) = w ++ ' ' :: [' '].intercalate (v :: rest) := by
          rw [List.intercalate_cons_cons, List.append_assoc, List.singleton_append]
        rw [hjoin, wordsOf_append_space hne hblank]

theorem wordsOf_intercalate {ws : List (List Char)}
    (h : ∀ w ∈ ws, w ≠ [] ∧ ∀ c ∈ w, isBlank c = false) :
    wordsOf ([' '].intercalate ws) = ws := by
  rw [wordsOf_intercalate_filter fun w hw => (h w hw).2, List.filter_eq_self]
  exact fun w hw => by simpa using (h w hw).1

/-- Words that are joined by blanks are found again. -/
theorem words_intercalate {ws : List String} (h : ∀ w ∈ ws, IsWord w) :
    words (" ".intercalate ws) = ws := by
  have hlists : ∀ w ∈ ws.map String.toList, w ≠ [] ∧ ∀ c ∈ w, isBlank c = false := by
    intro w hw
    rcases List.mem_map.mp hw with ⟨v, hv, rfl⟩
    exact ⟨by simpa using (h v hv).1, (h v hv).2⟩
  rw [words, String.toList_intercalate, show " ".toList = [' '] from rfl,
    wordsOf_intercalate hlists, List.map_map]
  simp [Function.comp_def]

/-! ## Letter case -/

/-- Changing the case of letters brings in no blanks. -/
theorem isBlank_of_mem_lower (h : ∀ c ∈ s.toList, isBlank c = false) :
    ∀ c ∈ (lower s).toList, isBlank c = false := by
  intro c hc
  cases hblank : isBlank c with
  | false => rfl
  | true =>
    have hmem := (uncased_of_isBlank hblank).mem_of_mem_lower hc
    exact hblank.symm.trans (h c hmem)

theorem isBlank_of_mem_upper (h : ∀ c ∈ s.toList, isBlank c = false) :
    ∀ c ∈ (upper s).toList, isBlank c = false := by
  intro c hc
  cases hblank : isBlank c with
  | false => rfl
  | true =>
    have hmem := (uncased_of_isBlank hblank).mem_of_mem_upper hc
    exact hblank.symm.trans (h c hmem)

end BlockMarkup.Text
