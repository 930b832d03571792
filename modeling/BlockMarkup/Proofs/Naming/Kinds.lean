import BlockMarkup.Proofs.Naming.Shape

/-! # Kinds of names exclude each other

A Block has a separator or a capital behind its first character, and an Element has neither, in any two
word cases (`not_blockShape_of_elementShape`). With the checks on modifiers and on reserved beginnings,
which come first for both, no name is of two kinds, and what a name is classified as does not depend on
the order of the checks (`kinds_exclude_each_other`).
-/

namespace BlockMarkup

open NamePattern (Joins Begins IsLowerWord)

variable {case otherCase : WordCase} {limit : Nat} {name : String} {s body word : List Char}

/-! ## Blocks and Elements -/

/-- A character that tells the words of a Block apart. -/
def IsWordMark (c : Char) : Prop := (c.isLower || c.isDigit) = false ∧ c ≠ '\n'

theorem isWordMark_of_isUpper {c : Char} (h : c.isUpper = true) : IsWordMark c := by
  rw [LetterClass.isUpper_eq, decide_eq_true_eq] at h
  refine ⟨?_, ?_⟩
  · rw [LetterClass.isLower_eq, LetterClass.isDigit_eq]
    simp
    omega
  · rintro rfl
    exact absurd h (by decide)

theorem isWordMark_of_separator {sep : Char} (h : case.separator? = some sep) : IsWordMark sep := by
  cases case with
  | kebab | snake =>
    cases h
    exact ⟨by decide, by decide⟩
  | camel | pascal => cases h

/-- The first word is not empty, so the separator behind it is not the first character. -/
theorem NamePattern.Joins.separator_mem_tail {sep : Char} {words : List (List Char)}
    (h : Joins sep words s) (hwords : 2 ≤ words.length) : sep ∈ s.tail := by
  match words, hwords with
  | v :: w :: words, _ =>
    obtain ⟨c, v, rfl⟩ := List.exists_cons_of_ne_nil (h.word v List.mem_cons_self).1
    rw [← h.joined, Text.intercalate_cons_flatMap]
    simp

theorem WordCase.BlockShape.exists_mark (h : case.BlockShape limit s) :
    ∃ c ∈ s.tail, IsWordMark c := by
  cases hsep : case.separator? with
  | some sep =>
    obtain ⟨words, hwords, hleast, -⟩ := (blockShape_of_separator hsep).mp h
    exact ⟨sep, hwords.separator_mem_tail hleast, isWordMark_of_separator hsep⟩
  | none =>
    obtain ⟨-, c, hc, hupper⟩ := (blockShape_of_capitals hsep).mp h
    exact ⟨c, hc, isWordMark_of_isUpper hupper⟩

theorem WordCase.ElementShape.not_mark (h : case.ElementShape word) (hs : UpToBreak word s) {c : Char}
    (hc : c ∈ s.tail) : ¬ IsWordMark c := by
  have hword : word ≠ [] := by
    rintro rfl
    cases h.first
  rintro ⟨hsmall, hbreak⟩
  have hrest : c ∈ word.tail := by
    rcases hs.tail hword with htail | htail
    · rwa [htail] at hc
    · rw [htail, List.mem_append, List.mem_singleton] at hc
      exact hc.resolve_right hbreak
  rw [h.rest c hrest] at hsmall
  cases hsmall

/-- A name does not have the shape of a Block and that of an Element, whatever the word cases are. -/
theorem not_blockShape_of_elementShape (hblock : case.BlockShape limit body) (hbody : UpToBreak body s)
    (hword : UpToBreak word s) : ¬ otherCase.ElementShape word := by
  intro helement
  obtain ⟨c, hc, hmark⟩ := hblock.exists_mark
  have hne : body ≠ [] := by
    rintro rfl
    cases hc
  exact helement.not_mark hword ((hbody.tail hne).isPrefix.mem hc) hmark

namespace NamingOptions

variable {n : NamingOptions}

/-! ## Classification -/

theorem isModifier_of_isBlock (h : n.isBlock name = true) : n.isModifier name = false := by
  simp only [isBlock, Bool.and_eq_true, Bool.not_eq_true'] at h
  exact h.1.1.2

theorem isModifier_of_isElement (h : n.isElement name = true) : n.isModifier name = false := by
  simp only [isElement, Bool.and_eq_true, Bool.not_eq_true'] at h
  exact h.1.1.2

theorem isElement_of_isBlock (hblock : n.custom.block = none) (helement : n.custom.element = none)
    (h : n.isBlock name = true) : n.isElement name = false := by
  obtain ⟨-, -, -, hmatches⟩ := (isBlock_iff hblock).mp h
  obtain ⟨body, hshape, hbody⟩ := NamePattern.matchesName_block_shape.mp hmatches
  refine Bool.eq_false_iff.mpr fun hisElement => ?_
  simp only [isElement, helement, patternMatches, Bool.and_eq_true] at hisElement
  obtain ⟨word, hword, hname⟩ := NamePattern.matchesName_element_shape.mp hisElement.2
  exact not_blockShape_of_elementShape hshape hbody hname hword

theorem reserved_of_isPrefix {lead : String} (hlead : lead ∈ ["u-", "-", "_"])
    (h : lead.toList <+: name.toList) : reserved name = true := by
  obtain ⟨rest, hname⟩ := h
  simp only [List.mem_cons, List.not_mem_nil, or_false] at hlead
  rcases hlead with rfl | rfl | rfl
  · rw [reserved, ← hname]
    rfl
  · rw [reserved, ← hname]
    rfl
  · rw [reserved, ← hname]
    rfl

theorem not_base_of_reserved (h : reserved name = true) :
    n.isBlock name = false ∧ n.isElement name = false := by
  simp [isBlock, isElement, h]

/-- No name is of two kinds, each name is classified as what it is, and the reserved beginnings belong to
no Block or Element, in all word cases and with any pattern for modifiers. -/
theorem kinds_exclude_each_other (hblock : n.custom.block = none) (helement : n.custom.element = none)
    (name : String) :
    (¬ (n.isBlock name = true ∧ n.isElement name = true) ∧
      ¬ (n.isBlock name = true ∧ n.isModifier name = true) ∧
      ¬ (n.isElement name = true ∧ n.isModifier name = true)) ∧
    ((n.classify name = .block ↔ n.isBlock name = true) ∧
      (n.classify name = .element ↔ n.isElement name = true) ∧
      (n.classify name = .invalid ↔ n.isBlock name = false ∧ n.isElement name = false)) ∧
    ∀ lead ∈ ["u-", "-", "_"], lead.toList <+: name.toList →
      n.isBlock name = false ∧ n.isElement name = false := by
  have hexclusive : n.isBlock name = true → n.isElement name = false :=
    isElement_of_isBlock hblock helement
  refine ⟨⟨?_, ?_, ?_⟩, ?_, fun lead hlead h => not_base_of_reserved (reserved_of_isPrefix hlead h)⟩
  · rintro ⟨hisBlock, hisElement⟩
    rw [hexclusive hisBlock] at hisElement
    cases hisElement
  · rintro ⟨hisBlock, hisModifier⟩
    rw [isModifier_of_isBlock hisBlock] at hisModifier
    cases hisModifier
  · rintro ⟨hisElement, hisModifier⟩
    rw [isModifier_of_isElement hisElement] at hisModifier
    cases hisModifier
  · rw [classify_eq]
    cases hisBlock : n.isBlock name with
    | true => simp [hexclusive hisBlock]
    | false => cases hisElement : n.isElement name <;> simp

/-- Three word cases, and modifiers that begin with a word. -/
def mixedNaming : NamingOptions where
  blockCase := .snake
  elementCase := .pascal
  modifierCase := .camel
  custom := { modifier := some ⟨"^Is", false, .anchor .textStart ++ .text "Is"⟩ }

theorem kinds_exclude_each_other_mixed_cases :
    (mixedNaming.isBlock "hero_banner" = true ∧ mixedNaming.classify "hero_banner" = .block) ∧
      (mixedNaming.isElement "Title" = true ∧ mixedNaming.classify "Title" = .element) ∧
      (mixedNaming.isModifier "IsOpen" = true ∧ mixedNaming.isElement "IsOpen" = false) ∧
      mixedNaming.isElement "_private" = false := by
  have hblock : mixedNaming.isBlock "hero_banner" = true := by decide +kernel
  have helement : mixedNaming.isElement "Title" = true := by decide +kernel
  have hmodifier : mixedNaming.isModifier "IsOpen" = true := by decide +kernel
  have hbanner := kinds_exclude_each_other (n := mixedNaming) rfl rfl "hero_banner"
  have htitle := kinds_exclude_each_other (n := mixedNaming) rfl rfl "Title"
  have hopen := kinds_exclude_each_other (n := mixedNaming) rfl rfl "IsOpen"
  have hprivate := kinds_exclude_each_other (n := mixedNaming) rfl rfl "_private"
  refine ⟨⟨hblock, hbanner.2.1.1.mpr hblock⟩, ⟨helement, htitle.2.1.2.1.mpr helement⟩, ⟨hmodifier, ?_⟩,
    (hprivate.2.2 "_" (by decide) (by decide)).2⟩
  exact Bool.eq_false_iff.mpr fun h => hopen.1.2.2 ⟨h, hmodifier⟩

end NamingOptions

end BlockMarkup
