import BlockMarkup.Proofs.Naming.WordLimit

/-! # The shapes of names

What a name looks like if a pattern accepts it, in all word cases at once and for any text: the body of
the name has the shape of a Block, of an Element or of a few words, and a line break may stand behind it
(`matchesName_block_shape`, `matchesName_element_shape`, `matchesName_modifier_shape`,
`matchesName_value_shape`).
-/

namespace BlockMarkup

open NamePattern (Joins Begins IsLowerWord)

variable {case : WordCase} {sep : Char} {limit most : Nat} {name : String} {s body : List Char}

namespace WordCase

/-- Words, up to a number of them. Capitals are not counted. -/
def OfWords (case : WordCase) (most : Nat) (s : List Char) : Prop :=
  match case.separator? with
  | some sep => ∃ words, Joins sep words s ∧ 1 ≤ words.length ∧ words.length ≤ most
  | none => Begins case.initial s

/-- Several words, the first one with a letter in front. -/
def BlockShape (case : WordCase) (limit : Nat) (s : List Char) : Prop :=
  match case.separator? with
  | some sep => ∃ words, Joins sep words s ∧ 2 ≤ words.length ∧ words.length ≤ max 2 limit ∧
      ∃ w ∈ words.head?, w.head?.any Char.isLower = true
  | none => Begins case.initial s ∧ ∃ c ∈ s.tail, c.isUpper = true

/-- A letter, and small letters and digits behind it. -/
structure ElementShape (case : WordCase) (s : List Char) : Prop where
  first : s.head?.any case.initial = true
  rest : ∀ c ∈ s.tail, (c.isLower || c.isDigit) = true

theorem ofWords_of_separator (h : case.separator? = some sep) : case.OfWords most s ↔
    ∃ words, Joins sep words s ∧ 1 ≤ words.length ∧ words.length ≤ most := by
  rw [OfWords, h]

theorem ofWords_of_capitals (h : case.separator? = none) :
    case.OfWords most s ↔ Begins case.initial s := by
  rw [OfWords, h]

theorem blockShape_of_separator (h : case.separator? = some sep) : case.BlockShape limit s ↔
    ∃ words, Joins sep words s ∧ 2 ≤ words.length ∧ words.length ≤ max 2 limit ∧
      ∃ w ∈ words.head?, w.head?.any Char.isLower = true := by
  rw [BlockShape, h]

theorem blockShape_of_capitals (h : case.separator? = none) : case.BlockShape limit s ↔
    Begins case.initial s ∧ ∃ c ∈ s.tail, c.isUpper = true := by
  rw [BlockShape, h]

theorem ElementShape.of_isPrefix {lead : List Char} (h : case.ElementShape s) (hlead : lead <+: s)
    (hne : lead ≠ []) : case.ElementShape lead := by
  obtain ⟨c, lead, rfl⟩ := List.exists_cons_of_ne_nil hne
  obtain ⟨rest, rfl⟩ := hlead
  exact ⟨h.first, fun d hd => h.rest d (List.mem_append_left _ hd)⟩

theorem OfWords.first_isAlphanum (h : case.OfWords most s) : s.head?.any Char.isAlphanum = true := by
  cases hsep : case.separator? with
  | none => exact any_isAlphanum_of_initial ((ofWords_of_capitals hsep).mp h).first
  | some sep =>
    obtain ⟨words, hwords, hleast, -⟩ := (ofWords_of_separator hsep).mp h
    obtain ⟨w, words, rfl⟩ := List.exists_cons_of_length_pos hleast
    have hw := hwords.word w List.mem_cons_self
    obtain ⟨c, w, rfl⟩ := List.exists_cons_of_ne_nil hw.1
    have hc : (c.isLower || c.isDigit) = true := hw.2 c List.mem_cons_self
    rw [hwords.head?_eq rfl, List.head?_cons, Option.any_some, LetterClass.isAlphanum_eq, Bool.or_assoc,
      hc, Bool.or_true]

theorem OfWords.ne_nil (h : case.OfWords most s) : s ≠ [] := by
  rintro rfl
  cases h.first_isAlphanum

end WordCase

namespace NamePattern

open LetterClass

/-! ## Blocks -/

theorem matchesName_block_shape : (block case limit).matchesName name = true ↔
    ∃ body, case.BlockShape limit body ∧ UpToBreak body name.toList := by
  cases hsep : case.separator? with
  | some sep =>
    have hfurther : max 1 (limit - 1) + 1 = max 2 limit := by omega
    rw [block_eq hsep, matchesName_whole_iff_upToBreak (isRegular_separated (Nat.le_max_left _ _))]
    simp only [mem_joined_iff fun w => mem_firstWord_iff, WordCase.blockShape_of_separator hsep, hfurther]
  | none =>
    obtain ⟨p, hp, hregular, hmem⟩ := exists_block_eq_whole hsep limit
    rw [hp, matchesName_whole_iff_upToBreak hregular]
    simp only [hmem, WordCase.blockShape_of_capitals hsep]

/-! ## Elements -/

theorem mem_element_iff {l : LetterClass} (hl : ∀ c, l.set.contains c = case.initial c) :
    s ∈ (l.once ++ lowerDigit.star).regex.language ↔ case.ElementShape s := by
  simp only [mem_append_iff, mem_once_iff, mem_star_iff, hl, contains_lowerDigit]
  constructor
  · rintro ⟨x, ⟨c, hc, rfl⟩, y, hy, rfl⟩
    exact ⟨hc, hy⟩
  · rintro ⟨hfirst, hrest⟩
    obtain ⟨c, hc, hinitial⟩ := Option.any_eq_true _ _ |>.mp hfirst
    obtain ⟨rest, rfl⟩ := List.head?_eq_some_iff.mp hc
    exact ⟨[c], ⟨c, hinitial, rfl⟩, rest, hrest, rfl⟩

theorem matchesName_element_shape : (element case).matchesName name = true ↔
    ∃ body, case.ElementShape body ∧ UpToBreak body name.toList := by
  have hword : ∀ l : LetterClass, (∀ c, l.set.contains c = case.initial c) →
      ((l.once ++ lowerDigit.star).whole.matchesName name = true ↔
        ∃ body, case.ElementShape body ∧ UpToBreak body name.toList) := by
    intro l hl
    have hregular : (l.once ++ lowerDigit.star).regex.IsRegular := ⟨trivial, Regex.isRegular_many _⟩
    simp only [matchesName_whole_iff_upToBreak hregular, mem_element_iff hl]
  cases case with
  | pascal => exact hword upper fun _ => contains_upper
  | kebab | snake | camel => exact hword lower fun _ => contains_lower

/-! ## Modifiers -/

/-- One word, or two with the separator between them. -/
theorem mem_oneOrTwo_iff : s ∈ (lowerDigit.plus.either
      (lowerDigit.plus ++ separator sep ++ lowerDigit.plus)).regex.language ↔
    ∃ words, Joins sep words s ∧ 1 ≤ words.length ∧ words.length ≤ 2 := by
  simp only [mem_either_iff, mem_append_iff, mem_separator_iff, mem_plus_iff]
  constructor
  · rintro (hs | ⟨-, ⟨v, hv, -, rfl, rfl⟩, w, hw, rfl⟩)
    · exact ⟨[s], ⟨by simpa using hs, by simp⟩, by simp, by simp⟩
    · exact ⟨[v, w], ⟨by simp [hv, hw], by simp [List.intercalate]⟩, by simp, by simp⟩
  · rintro ⟨words, ⟨hwords, rfl⟩, hleast, hmost⟩
    match words, hleast, hmost with
    | [w], _, _ => exact Or.inl (by simpa using hwords)
    | [v, w], _, _ =>
      exact Or.inr ⟨v ++ [sep], ⟨v, hwords v (by simp), [sep], rfl, rfl⟩, w, hwords w (by simp),
        by simp [List.intercalate]⟩

theorem mem_modifierWords_shape :
    s ∈ (modifierWords case).regex.language ↔ case.OfWords 2 s := by
  cases hsep : case.separator? with
  | none => rw [mem_modifierWords_iff hsep, WordCase.ofWords_of_capitals hsep]
  | some sep =>
    rw [WordCase.ofWords_of_separator hsep]
    cases case with
    | kebab | snake =>
      cases hsep
      exact mem_oneOrTwo_iff
    | camel | pascal => cases hsep

theorem isRegular_anyModifierWords (case : WordCase) : (modifierWords case).regex.IsRegular := by
  cases hsep : case.separator? with
  | none => exact isRegular_modifierWords hsep
  | some sep =>
    have hplus : lowerDigit.plus.regex.IsRegular := Regex.isRegular_many1 _
    cases case with
    | kebab | snake => exact ⟨hplus, ⟨hplus, trivial⟩, hplus⟩
    | camel | pascal => cases hsep

theorem matchesName_modifier_shape {lead : String} : (modifier case lead).matchesName name = true ↔
    ∃ body, case.OfWords 2 body ∧ UpToBreak (lead.toList ++ body) name.toList :=
  matchesName_modifier (isRegular_anyModifierWords case) fun _ => mem_modifierWords_shape

/-! ## Values -/

/-- Behind the first word there may be none, and with capitals in it there need be none. -/
theorem mem_furtherCapitals_iff {l : LetterClass} {initial : Char → Bool} {limit : Nat}
    (hl : ∀ c, l.set.contains c = initial c)
    (hinitial : ∀ c, initial c = true → c.isAlphanum = true) :
    s ∈ (furtherWords (l.once ++ alphaDigit.star) capitalWord limit).regex.language ↔
      Begins initial s := by
  rw [furtherWords]
  split
  · have hloop : ∀ y, y ∈ (capitalWord.times 0 ((limit : Int) - 1).toNat).regex.language →
        ∀ c ∈ y, c.isAlphanum = true := by
      intro y hy c hc
      obtain ⟨parts, rfl, -, -, hparts⟩ := Regex.mem_language_loop.mp hy
      obtain ⟨part, hpart, hc⟩ := List.mem_flatten.mp hc
      exact (mem_capitalWord_iff.mp (hparts part hpart)).alphanum c hc
    have hnone : [] ∈ (capitalWord.times 0 ((limit : Int) - 1).toNat).regex.language :=
      Regex.mem_language_loop.mpr ⟨[], rfl, Nat.le_refl 0, by simp, by simp⟩
    simp only [mem_append_iff (q := capitalWord.times _ _), mem_begins_iff hl hinitial]
    constructor
    · rintro ⟨x, hx, y, hy, rfl⟩
      exact hx.append (hloop y hy)
    · intro hs
      -- the first word has taken everything
      exact ⟨s, hs, [], hnone, List.append_nil s⟩
  · exact mem_begins_iff hl hinitial

theorem isRegular_furtherCapitals (l : LetterClass) (limit : Nat) :
    (furtherWords (l.once ++ alphaDigit.star) capitalWord limit).regex.IsRegular := by
  have hfirst : (l.once ++ alphaDigit.star).regex.IsRegular := ⟨trivial, Regex.isRegular_many _⟩
  rw [furtherWords]
  split
  · exact ⟨hfirst, isRegular_capitalWord, fun hnil => (mem_capitalWord_iff.mp hnil).ne_nil rfl,
      by simp, rfl⟩
  · exact hfirst

theorem matchesName_value_shape (hlimit : 1 ≤ limit) : (value case limit).matchesName name = true ↔
    ∃ body, case.OfWords limit body ∧ UpToBreak body name.toList := by
  cases hsep : case.separator? with
  | some sep =>
    rw [value_eq hsep, matchesName_whole_iff_upToBreak (isRegular_furtherWords _)]
    simp only [mem_furtherWords_iff hlimit, WordCase.ofWords_of_separator hsep]
  | none =>
    simp only [WordCase.ofWords_of_capitals hsep]
    cases case with
    | kebab | snake => cases hsep
    | camel =>
      rw [value, matchesName_whole_iff_upToBreak (isRegular_furtherCapitals _ _)]
      simp only [mem_furtherCapitals_iff (fun _ => contains_lower) fun _ => isAlphanum_of_isLower,
        WordCase.initial]
    | pascal =>
      rw [value, matchesName_whole_iff_upToBreak (isRegular_furtherCapitals _ _)]
      simp only [mem_furtherCapitals_iff (fun _ => contains_upper) fun _ => isAlphanum_of_isUpper,
        WordCase.initial]

end NamePattern

end BlockMarkup
