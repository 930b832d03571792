import BlockMarkup.Proofs.Naming.Shape

/-! # Limits on the words of values

In camel and pascal case the first word of a value may take in the capitals that are meant to begin
further ones. So the limit on the number of words, as long as a pattern can be built for it, makes no
difference: the accepted values are the letters and digits that begin in the right way, however many
words they are, and the linter reports the same values for each limit (`accepts_value_iff_begins`).
-/

namespace BlockMarkup

open NamePattern (Begins)

variable {case : WordCase}

/-- Letters and digits can make up any number of words. -/
theorem exists_begins_wordCount (hsep : case.separator? = none) {k : Nat} (hk : 1 ≤ k) :
    ∃ s, Begins case.initial s ∧ wordCount s = k := by
  obtain ⟨k, rfl⟩ := Nat.exists_eq_add_of_le' hk
  have hcount := wordCount_alternating k
  have halnum := isAlphanum_alternating k
  cases case with
  | kebab | snake => cases hsep
  | camel =>
    exact ⟨'a' :: alternating k, NamePattern.begins_cons.mpr ⟨by decide, by decide, halnum⟩, hcount⟩
  | pascal =>
    -- no word begins at the small letter behind the first capital
    refine ⟨'A' :: 'a' :: alternating k, NamePattern.begins_cons.mpr ⟨by decide, by decide, ?_⟩, ?_⟩
    · exact List.forall_mem_cons.mpr ⟨by decide, halnum⟩
    · rw [wordCount_cons_cons, hcount]
      rfl

/-- What is reported about values depends only on which of them are accepted. -/
theorem Rule.badValues_congr {p q : NamePattern} (h : ∀ value, p.matchesName value = q.matchesName value)
    (code : IssueCode) (attributes : List AttributeSelector) :
    badValues code p attributes = badValues code q attributes := by
  simp only [badValues, h]

/-- The limit says nothing about the accepted values; one that is too large to be written into a pattern
is the only one that matters. -/
theorem accepts_value_iff_begins (hsep : case.separator? = none) (v : ValueNaming)
    (hcase : v.case = case) (hleast : 1 ≤ v.maxWords) :
    (v.maxWords < 4294967296 → ∃ p, v.pattern = .ok p ∧
      (∀ value : String, p.matchesName value = true ↔
        ∃ body, Begins case.initial body ∧ UpToBreak body value.toList) ∧
      (∀ k, 1 ≤ k → ∃ value : String, p.matchesName value = true ∧ wordCount value.toList = k) ∧
      ∀ code attributes, Rule.badValues code p attributes =
        Rule.badValues code (.value case 1) attributes) ∧
    (4294967296 ≤ v.maxWords → v.pattern = .error .countTooLarge) := by
  have hshape : ∀ limit : Nat, 1 ≤ limit → ∀ value : String,
      (NamePattern.value case limit).matchesName value = true ↔
        ∃ body, Begins case.initial body ∧ UpToBreak body value.toList := by
    intro limit hlimit value
    simp only [NamePattern.matchesName_value_shape hlimit, WordCase.ofWords_of_capitals hsep]
  constructor
  · intro hmost
    have hsize : v.maxWords ≤ Regex.countLimit := Nat.le_of_lt_succ hmost
    refine ⟨NamePattern.value case v.maxWords, ?_, hshape _ hleast, fun k hk => ?_, ?_⟩
    · rw [v.pattern_eq, if_pos hsize, hcase]
    · obtain ⟨s, hs, hcount⟩ := exists_begins_wordCount hsep hk
      refine ⟨String.ofList s, (hshape _ hleast _).mpr ⟨s, hs, Or.inl ?_⟩, ?_⟩
      · exact String.toList_ofList
      · rwa [String.toList_ofList]
    · refine Rule.badValues_congr fun value => ?_
      have hone := hshape 1 (Nat.le_refl 1) value
      rw [Bool.eq_iff_iff, hshape _ hleast]
      exact hone.symm
  · intro hlarge
    have hsize : ¬ v.maxWords ≤ Regex.countLimit := Nat.not_le_of_lt hlarge
    rw [v.pattern_eq, if_neg hsize]

theorem accepts_value_four_camel_words : ∃ p,
    ({ case := .camel, maxWords := 2 } : ValueNaming).pattern = .ok p ∧
      p.matchesName "isVeryWideOpen" = true ∧ p.matchesName "IsOpen" = false := by
  have hsep : WordCase.camel.separator? = none := rfl
  have hvalue := (accepts_value_iff_begins hsep { case := .camel, maxWords := 2 } rfl (by decide)).1
    (by decide)
  obtain ⟨p, hp, hmatches, -⟩ := hvalue
  refine ⟨p, hp, (hmatches _).mpr ⟨"isVeryWideOpen".toList, by decide, Or.inl rfl⟩, ?_⟩
  refine Bool.eq_false_iff.mpr fun h => ?_
  -- the name does not end in a line break, so it is the body, and that begins with a small letter
  obtain ⟨body, hbody, hname | hname⟩ := (hmatches _).mp h
  · rw [← hname] at hbody
    exact absurd hbody (by decide)
  · exact absurd (congrArg List.getLast? hname) (by simp)

/-- One word is allowed, and two words are accepted. -/
theorem accepts_value_miscounted_words :
    (∃ p, ({ case := .camel, maxWords := 1 } : ValueNaming).pattern = .ok p ∧
      p.matchesName "isOpen" = true ∧ wordCount "isOpen".toList = 2) ∧
    (∃ p, ({ case := .pascal, maxWords := 1 } : ValueNaming).pattern = .ok p ∧
      p.matchesName "IsOpen" = true ∧ wordCount "IsOpen".toList = 2) := by
  exact ⟨⟨_, rfl, by decide +kernel⟩, ⟨_, rfl, by decide +kernel⟩⟩

end BlockMarkup
