import BlockMarkup.Proofs.Lint.Returns
import BlockMarkup.Proofs.Naming.Language

/-! # Limits on the number of words

Where a separator stands between words, the patterns for Blocks and for values count them: a name is
accepted just if it is a number of words within the limit (`accepts_iff_words`). In camel and pascal case
a capital does not end a word of the pattern, so the limit is without effect: any letters and digits are
accepted that begin in the right way, for Blocks with one more capital among them
(`accepts_iff_capital`).
-/

namespace BlockMarkup

open NamePattern (Joins Begins)

namespace WordCase

/-- What stands between the words of a name, if anything does. -/
def separator? : WordCase → Option Char
  | .kebab => some '-'
  | .snake => some '_'
  | .camel | .pascal => none

/-- How the first word of a name begins. -/
def initial : WordCase → Char → Bool
  | .pascal => Char.isUpper
  | .kebab | .snake | .camel => Char.isLower

theorem isAlphanum_of_initial {case : WordCase} {c : Char} (h : case.initial c = true) :
    c.isAlphanum = true := by
  cases case with
  | pascal => exact NamePattern.isAlphanum_of_isUpper h
  | kebab | snake | camel => exact NamePattern.isAlphanum_of_isLower h

theorem any_isAlphanum_of_initial {case : WordCase} {first : Option Char}
    (h : first.any case.initial = true) : first.any Char.isAlphanum = true := by
  obtain ⟨c, hc, hinitial⟩ := Option.any_eq_true _ _ |>.mp h
  exact Option.any_eq_true _ _ |>.mpr ⟨c, hc, isAlphanum_of_initial hinitial⟩

end WordCase

variable {n : NamingOptions} {case : WordCase} {sep : Char} {s : List Char} {name : String}

/-! ## Options -/

namespace NamingOptions

theorem readMaxWords_bounds (raw : Option Json) :
    leastMaxWords ≤ readMaxWords raw ∧ readMaxWords raw ≤ greatestMaxWords := by
  unfold readMaxWords leastMaxWords greatestMaxWords
  split <;> omega

theorem isBlock_iff (h : n.custom.block = none) : n.isBlock name = true ↔
    n.isModifier name = false ∧ name ≠ "" ∧ reserved name = false ∧
      (NamePattern.block n.blockCase n.blockMaxWords).matchesName name = true := by
  rw [isBlock, h]
  simp only [patternMatches, Bool.and_eq_true, bne_iff_ne, Bool.not_eq_true']
  tauto

/-- Of the reserved beginnings only one begins with a letter or a digit. -/
theorem reserved_eq_false_iff (h : name.toList.head?.any Char.isAlphanum = true) :
    reserved name = false ↔ ¬ "u-".toList <+: name.toList := by
  rw [reserved]
  split
  · rename_i rest hname
    rw [hname]
    simp
  · rename_i rest hname
    rw [hname] at h
    cases h
  · rename_i rest hname
    rw [hname] at h
    cases h
  · rename_i hu _ _
    refine iff_of_true rfl ?_
    rintro ⟨rest, hname⟩
    exact hu rest hname.symm

end NamingOptions

/-! ## Words with a separator -/

namespace NamePattern

/-- As many further segments as there may be words behind the first. -/
theorem block_eq (h : case.separator? = some sep) (limit : Nat) : block case limit =
    (LetterClass.lower.once ++ LetterClass.lowerDigit.star ++
      (separator sep ++ LetterClass.lowerDigit.plus).times 1 (max 1 (limit - 1))).whole := by
  have hfurther : (max 1 ((limit : Int) - 1)).toNat = max 1 (limit - 1) := by omega
  cases case with
  | kebab | snake =>
    cases h
    rw [block, hfurther]
  | camel | pascal => cases h

theorem value_eq (h : case.separator? = some sep) (limit : Nat) : value case limit =
    (furtherWords LetterClass.lowerDigit.plus
      (separator sep ++ LetterClass.lowerDigit.plus) limit).whole := by
  cases case with
  | kebab | snake =>
    cases h
    rfl
  | camel | pascal => cases h

/-- Behind the first word of a value there may be none. -/
theorem mem_furtherWords_iff {limit : Nat} (hlimit : 1 ≤ limit) :
    s ∈ (furtherWords LetterClass.lowerDigit.plus
        (separator sep ++ LetterClass.lowerDigit.plus) limit).regex.language ↔
      ∃ words, Joins sep words s ∧ 1 ≤ words.length ∧ words.length ≤ limit := by
  rw [furtherWords]
  split
  · have hfirst : ∀ w, w ∈ LetterClass.lowerDigit.plus.regex.language ↔ IsLowerWord w ∧ True :=
      fun w => mem_plus_iff.trans (iff_of_eq (and_true _).symm)
    have hfurther : ((limit : Int) - 1).toNat + 1 = limit := by omega
    rw [mem_joined_iff hfirst, hfurther]
    refine exists_congr fun words => and_congr_right fun _ => and_congr_right fun hleast =>
      and_iff_left ?_
    obtain ⟨w, words, rfl⟩ := List.exists_cons_of_length_pos hleast
    exact ⟨w, rfl, trivial⟩
  · have hone : limit = 1 := by omega
    rw [mem_plus_iff, hone]
    constructor
    · intro hs
      exact ⟨[s], ⟨by simpa using hs, by simp⟩, Nat.le_refl 1, Nat.le_refl 1⟩
    · rintro ⟨words, ⟨hword, rfl⟩, hleast, hmost⟩
      obtain ⟨w, rfl⟩ := List.length_eq_one_iff.mp (Nat.le_antisymm hmost hleast)
      simpa using hword w List.mem_cons_self

theorem isRegular_furtherWords (limit : Nat) :
    (furtherWords LetterClass.lowerDigit.plus
      (separator sep ++ LetterClass.lowerDigit.plus) limit).regex.IsRegular := by
  rw [furtherWords]
  split
  · exact ⟨Regex.isRegular_many1 _, isRegular_times (Nat.zero_le _)⟩
  · exact Regex.isRegular_many1 _

theorem isRegular_separated {least most : Nat} (h : least ≤ most) :
    (LetterClass.lower.once ++ LetterClass.lowerDigit.star ++
      (separator sep ++ LetterClass.lowerDigit.plus).times least most).regex.IsRegular :=
  ⟨⟨trivial, Regex.isRegular_many _⟩, isRegular_times h⟩

/-- Joined words begin as the first of them. -/
theorem Joins.head?_eq {words : List (List Char)} {w : List Char} (h : Joins sep words s)
    (hw : w ∈ words.head?) : s.head? = w.head? := by
  obtain ⟨ws, rfl⟩ := List.head?_eq_some_iff.mp hw
  obtain ⟨c, w, rfl⟩ := List.exists_cons_of_ne_nil (h.word w List.mem_cons_self).1
  rw [← h.joined, Text.intercalate_cons_flatMap]
  rfl

end NamePattern

/-- Blocks have two words or more, up to the limit; values have at least one. -/
theorem accepts_iff_words (hsep : case.separator? = some sep) :
    (∀ (n : NamingOptions) (limit : Option Json), n.blockCase = case → n.custom.block = none →
      n.blockMaxWords = NamingOptions.readMaxWords limit →
        (2 ≤ n.blockMaxWords ∧ n.blockMaxWords ≤ 100) ∧
        ∀ name : String, (∀ c ∈ name.toList, Text.isBlank c = false) →
          (n.isBlock name = true ↔ n.isModifier name = false ∧ ¬ "u-".toList <+: name.toList ∧
            ∃ words, Joins sep words name.toList ∧
              (∃ w ∈ words.head?, w.head?.any Char.isLower = true) ∧
                2 ≤ words.length ∧ words.length ≤ n.blockMaxWords)) ∧
    (∀ v : ValueNaming, v.case = case → 1 ≤ v.maxWords → v.maxWords < 4294967296 →
      ∃ p, v.pattern = .ok p ∧
        ∀ value : String, (∀ c ∈ value.toList, Text.isBlank c = false) →
          (p.matchesName value = true ↔ ∃ words, Joins sep words value.toList ∧
            1 ≤ words.length ∧ words.length ≤ v.maxWords)) := by
  constructor
  · intro n limit hcase hcustom hlimit
    have hbounds : 2 ≤ n.blockMaxWords ∧ n.blockMaxWords ≤ 100 := by
      rw [hlimit]
      exact NamingOptions.readMaxWords_bounds limit
    refine ⟨hbounds, fun name hname => ?_⟩
    have hmost : max 1 (n.blockMaxWords - 1) + 1 = n.blockMaxWords := by omega
    have hpattern : (NamePattern.block n.blockCase n.blockMaxWords).matchesName name = true ↔
        ∃ words, Joins sep words name.toList ∧ 2 ≤ words.length ∧
          words.length ≤ n.blockMaxWords ∧ ∃ w ∈ words.head?, w.head?.any Char.isLower = true := by
      rw [hcase, NamePattern.block_eq hsep,
        NamePattern.matchesName_whole_iff (NamePattern.isRegular_separated (Nat.le_max_left _ _)) hname,
        NamePattern.mem_joined_iff fun w => NamePattern.mem_firstWord_iff, hmost]
    -- the first word is no reserved beginning, unless it is the text of one that has a letter
    have hbegins : ∀ words, Joins sep words name.toList →
        (∃ w ∈ words.head?, w.head?.any Char.isLower = true) →
          name ≠ "" ∧ (NamingOptions.reserved name = false ↔ ¬ "u-".toList <+: name.toList) := by
      rintro words hwords ⟨w, hw, hlower⟩
      rw [← hwords.head?_eq hw] at hlower
      have halnum : name.toList.head?.any Char.isAlphanum = true := by
        obtain ⟨c, hc, hlower⟩ := Option.any_eq_true _ _ |>.mp hlower
        exact Option.any_eq_true _ _ |>.mpr ⟨c, hc, NamePattern.isAlphanum_of_isLower hlower⟩
      refine ⟨?_, NamingOptions.reserved_eq_false_iff halnum⟩
      rintro rfl
      cases hlower
    rw [NamingOptions.isBlock_iff hcustom, hpattern]
    refine and_congr_right fun _ => ?_
    constructor
    · rintro ⟨-, hreserved, words, hwords, hleast, hmost, hfirst⟩
      exact ⟨(hbegins words hwords hfirst).2.mp hreserved, words, hwords, hfirst, hleast, hmost⟩
    · rintro ⟨hu, words, hwords, hfirst, hleast, hmost⟩
      obtain ⟨hne, hreserved⟩ := hbegins words hwords hfirst
      exact ⟨hne, hreserved.mpr hu, words, hwords, hleast, hmost, hfirst⟩
  · intro v hcase hleast hmost
    have hsize : v.maxWords ≤ Regex.countLimit := Nat.le_of_lt_succ hmost
    refine ⟨NamePattern.value v.case v.maxWords, ?_, fun value hvalue => ?_⟩
    · rw [v.pattern_eq, if_pos hsize]
    · rw [hcase, NamePattern.value_eq hsep,
        NamePattern.matchesName_whole_iff (NamePattern.isRegular_furtherWords _) hvalue,
        NamePattern.mem_furtherWords_iff hleast]

theorem accepts_three_kebab_words :
    (({ blockMaxWords := 3 } : NamingOptions).isBlock "hero-2x-banner" = true ∧
      ({ blockMaxWords := 3 } : NamingOptions).isBlock "u-2x-banner" = false) ∧
    ∃ p, ({ maxWords := 4294967295 } : ValueNaming).pattern = .ok p ∧
      p.matchesName "2x-wide" = true := by
  have hkebab : WordCase.kebab.separator? = some '-' := rfl
  have hwords := accepts_iff_words hkebab
  have hblock := (hwords.1 { blockMaxWords := 3 } (some (.int 3)) rfl rfl rfl).2
  obtain ⟨p, hp, hvalue⟩ := hwords.2 { maxWords := 4294967295 } rfl (by decide) (by decide)
  have hblank : Text.IsWord "hero-2x-banner" ∧ Text.IsWord "u-2x-banner" ∧ Text.IsWord "2x-wide" := by
    decide
  refine ⟨⟨(hblock "hero-2x-banner" hblank.1.2).mpr ⟨by decide +kernel, by decide,
      ["hero".toList, "2x".toList, "banner".toList], ⟨by decide, rfl⟩, ⟨_, rfl, rfl⟩, by decide,
      by decide⟩, ?_⟩,
    p, hp, (hvalue "2x-wide" hblank.2.2.2).mpr
      ⟨["2x".toList, "wide".toList], ⟨by decide, rfl⟩, by decide, by decide⟩⟩
  refine Bool.eq_false_iff.mpr fun h => ?_
  exact ((hblock "u-2x-banner" hblank.2.1.2).mp h).2.1 (by decide)

/-! ## Words with capitals -/

/-- Whether a word begins behind a character with the one that follows it: a capital does so behind a
small letter or a digit. -/
def beginsWord (a b : Char) : Bool := FileName.isLowerOrDigit a && b.isUpper

/-- The words of a name without separators; one of them begins at the first character. -/
def wordCount (s : List Char) : Nat :=
  (if s = [] then 0 else 1) + (s.zip s.tail).countP (Function.uncurry beginsWord)

theorem wordCount_cons_cons (a b : Char) (s : List Char) : wordCount (a :: b :: s) =
    wordCount (b :: s) + if beginsWord a b = true then 1 else 0 := by
  rw [wordCount, wordCount, if_neg (List.cons_ne_nil _ _), if_neg (List.cons_ne_nil _ _), List.tail_cons,
    List.zip_cons_cons, List.countP_cons, Nat.add_assoc]
  rfl

theorem one_le_wordCount (a : Char) (s : List Char) : 1 ≤ wordCount (a :: s) := by
  rw [wordCount, if_neg (List.cons_ne_nil _ _)]
  exact Nat.le_add_right _ _

/-- Before the first capital there is a small letter or a digit, if no capital comes first. -/
theorem two_le_wordCount {a : Char} (ha : FileName.isLowerOrDigit a = true)
    (hs : ∀ c ∈ s, c.isAlphanum = true) (hupper : ∃ c ∈ s, c.isUpper = true) :
    2 ≤ wordCount (a :: s) := by
  induction s generalizing a with
  | nil =>
    obtain ⟨c, hc, -⟩ := hupper
    cases hc
  | cons b s ih =>
    rw [wordCount_cons_cons, beginsWord, ha, Bool.true_and]
    have hone := one_le_wordCount b s
    rw [List.forall_mem_cons] at hs
    -- a word begins at the first capital; up to there all are small letters and digits
    cases hb : b.isUpper with
    | true =>
      rw [if_pos rfl]
      omega
    | false =>
      have hsmall : FileName.isLowerOrDigit b = true := by
        have halnum := hs.1
        rw [LetterClass.isAlphanum_eq, hb] at halnum
        simpa [FileName.isLowerOrDigit] using halnum
      have hlater : ∃ c ∈ s, c.isUpper = true := by
        obtain ⟨c, hc, hcu⟩ := hupper
        rcases List.mem_cons.mp hc with rfl | hc
        · rw [hb] at hcu
          cases hcu
        · exact ⟨c, hc, hcu⟩
      have htwo := ih hsmall hs.2 hlater
      omega

/-- Small letters and capitals in turn. -/
def alternating : Nat → List Char
  | 0 => []
  | k + 1 => 'A' :: 'a' :: alternating k

theorem wordCount_alternating (k : Nat) : wordCount ('a' :: alternating k) = k + 1 := by
  induction k with
  | zero => rfl
  | succ k ih =>
    rw [alternating, wordCount_cons_cons, wordCount_cons_cons, ih]
    rfl

theorem isAlphanum_alternating (k : Nat) : ∀ c ∈ alternating k, c.isAlphanum = true := by
  induction k with
  | zero => simp [alternating]
  | succ k ih => exact List.forall_mem_cons.mpr ⟨by decide, List.forall_mem_cons.mpr ⟨by decide, ih⟩⟩

namespace NamePattern

/-- One segment with a capital is enough, whatever the limit is. -/
theorem exists_block_eq_whole (hsep : case.separator? = none) (limit : Nat) : ∃ p : NamePattern,
    block case limit = p.whole ∧ p.regex.IsRegular ∧ ∀ s, s ∈ p.regex.language ↔
      Begins case.initial s ∧ ∃ c ∈ s.tail, c.isUpper = true := by
  have hfurther : 1 ≤ (max 1 ((limit : Int) - 1)).toNat := by omega
  have hregular : ∀ l : LetterClass, (l.once ++ LetterClass.lowerDigit.star ++
      capitalWord.times 1 (max 1 ((limit : Int) - 1)).toNat).regex.IsRegular :=
    fun _ => ⟨⟨trivial, Regex.isRegular_many _⟩, isRegular_capitalWords hfurther⟩
  cases case with
  | kebab | snake => cases hsep
  | camel =>
    exact ⟨_, rfl, hregular _, fun _ => mem_capitals_iff (fun _ => LetterClass.contains_lower)
      (fun _ => isAlphanum_of_isLower) fun _ => mem_capitalWords_iff hfurther⟩
  | pascal =>
    exact ⟨_, rfl, hregular _, fun _ => mem_capitals_iff (fun _ => LetterClass.contains_upper)
      (fun _ => isAlphanum_of_isUpper) fun _ => mem_capitalWords_iff hfurther⟩

theorem matchesName_block_iff {limit : Nat} (hsep : case.separator? = none)
    (hname : ∀ c ∈ name.toList, Text.isBlank c = false) :
    (block case limit).matchesName name = true ↔
      Begins case.initial name.toList ∧ ∃ c ∈ name.toList.tail, c.isUpper = true := by
  obtain ⟨p, hp, hregular, hmem⟩ := exists_block_eq_whole hsep limit
  rw [hp, matchesName_whole_iff hregular hname, hmem]

/-- What two words of a modifier are is a single word, too. -/
theorem mem_modifierWords_iff (hsep : case.separator? = none) :
    s ∈ (modifierWords case).regex.language ↔ Begins case.initial s := by
  have hwords : ∀ {l : LetterClass} {initial : Char → Bool}, (∀ c, l.set.contains c = initial c) →
      (∀ c, initial c = true → c.isAlphanum = true) →
        (s ∈ ((l.once ++ LetterClass.alphaDigit.star).either
          (l.once ++ LetterClass.lowerDigit.star ++ capitalWord)).regex.language ↔ Begins initial s) := by
    intro l initial hl hinitial
    rw [mem_either_iff, mem_begins_iff hl hinitial,
      mem_capitals_iff hl hinitial fun _ => mem_capitalWord_iff]
    -- a word with a further capital is one of letters and digits, too
    exact or_iff_left_of_imp And.left
  cases case with
  | kebab | snake => cases hsep
  | camel => exact hwords (fun _ => LetterClass.contains_lower) fun _ => isAlphanum_of_isLower
  | pascal => exact hwords (fun _ => LetterClass.contains_upper) fun _ => isAlphanum_of_isUpper

theorem isRegular_modifierWords (hsep : case.separator? = none) :
    (modifierWords case).regex.IsRegular := by
  have hwords : ∀ l : LetterClass, ((l.once ++ LetterClass.alphaDigit.star).either
      (l.once ++ LetterClass.lowerDigit.star ++ capitalWord)).regex.IsRegular := fun _ =>
    ⟨⟨trivial, Regex.isRegular_many _⟩, ⟨trivial, Regex.isRegular_many _⟩, isRegular_capitalWord⟩
  cases case with
  | kebab | snake => cases hsep
  | camel | pascal => exact hwords _

/-- A modifier is the prefix and what the words of a modifier are, in any word case. -/
theorem matchesName_modifier {lead : String} {F : List Char → Prop}
    (hregular : (modifierWords case).regex.IsRegular)
    (hwords : ∀ s, s ∈ (modifierWords case).regex.language ↔ F s) :
    (modifier case lead).matchesName name = true ↔
      ∃ body, F body ∧ UpToBreak (lead.toList ++ body) name.toList := by
  have hlead : (literal lead ++ modifierWords case).regex.IsRegular := ⟨Regex.isRegular_chars _, hregular⟩
  rw [modifier, matchesName_whole_iff_upToBreak hlead]
  simp only [mem_append_iff, mem_literal_iff, hwords]
  constructor
  · rintro ⟨-, ⟨-, rfl, body, hbody, rfl⟩, hname⟩
    exact ⟨body, hbody, hname⟩
  · rintro ⟨body, hbody, hname⟩
    exact ⟨_, ⟨_, rfl, body, hbody, rfl⟩, hname⟩

theorem matchesName_modifier_iff {lead : String} (hsep : case.separator? = none) :
    (modifier case lead).matchesName name = true ↔ ∃ body, Begins case.initial body ∧
      (name.toList = lead.toList ++ body ∨ name.toList = lead.toList ++ body ++ ['\n']) :=
  matchesName_modifier (isRegular_modifierWords hsep) fun _ => mem_modifierWords_iff hsep

end NamePattern

/-- Letters and digits are not reserved. -/
theorem NamingOptions.reserved_of_begins (h : Begins case.initial name.toList) :
    reserved name = false := by
  refine (reserved_eq_false_iff (WordCase.any_isAlphanum_of_initial h.first)).mpr ?_
  rintro ⟨rest, hname⟩
  have hhyphen := h.alphanum '-' (by rw [← hname]; simp)
  cases hhyphen

/-- What camel and pascal case accept does not depend on the limit, and there are names of any number of
words among it. Blocks in camel case have two words at least. -/
theorem accepts_iff_capital (hsep : case.separator? = none) :
    (∀ n : NamingOptions, n.blockCase = case → n.custom.block = none →
      ∀ name : String, (∀ c ∈ name.toList, Text.isBlank c = false) →
        (n.isBlock name = true ↔ n.isModifier name = false ∧ Begins case.initial name.toList ∧
          ∃ c ∈ name.toList.tail, c.isUpper = true) ∧
        (case = .camel → n.isBlock name = true → 2 ≤ wordCount name.toList)) ∧
    (∀ n : NamingOptions, n.modifierCase = case → n.custom.modifier = none →
      ∀ name : String, n.isModifier name = true ↔ ∃ body, Begins case.initial body ∧
        (name.toList = n.modifierPrefix.toList ++ body ∨
          name.toList = n.modifierPrefix.toList ++ body ++ ['\n'])) ∧
    ∀ k, 2 ≤ k → ∃ s, Begins case.initial s ∧ (∃ c ∈ s.tail, c.isUpper = true) ∧ wordCount s = k := by
  refine ⟨fun n hcase hcustom name hname => ?_, fun n hcase hcustom name => ?_, fun k hk => ?_⟩
  · have hblock : n.isBlock name = true ↔ n.isModifier name = false ∧
        Begins case.initial name.toList ∧ ∃ c ∈ name.toList.tail, c.isUpper = true := by
      rw [NamingOptions.isBlock_iff hcustom, hcase, NamePattern.matchesName_block_iff hsep hname]
      refine and_congr_right fun _ => ?_
      constructor
      · exact fun h => h.2.2
      · intro h
        refine ⟨?_, NamingOptions.reserved_of_begins h.1, h⟩
        rintro rfl
        cases h.1.first
    refine ⟨hblock, ?_⟩
    rintro rfl h
    obtain ⟨-, hbegins, hupper⟩ := hblock.mp h
    obtain ⟨a, s, hs⟩ := List.exists_cons_of_ne_nil hbegins.ne_nil
    rw [hs] at hbegins hupper ⊢
    obtain ⟨hlower, -, hrest⟩ := NamePattern.begins_cons.mp hbegins
    have hsmall : a.isLower = true := hlower
    exact two_le_wordCount (by rw [FileName.isLowerOrDigit, hsmall, Bool.true_or]) hrest hupper
  · have hmodifier : n.modifierMatches name = true ↔ ∃ body, Begins case.initial body ∧
        (name.toList = n.modifierPrefix.toList ++ body ∨
          name.toList = n.modifierPrefix.toList ++ body ++ ['\n']) := by
      rw [NamingOptions.modifierMatches, hcustom, hcase]
      exact NamePattern.matchesName_modifier_iff hsep
    rw [NamingOptions.isModifier, Bool.and_eq_true, bne_iff_ne, hmodifier]
    refine and_iff_right_of_imp ?_
    rintro ⟨body, hbody, hname⟩ rfl
    obtain ⟨c, body, rfl⟩ := List.exists_cons_of_ne_nil hbody.ne_nil
    rcases hname with hname | hname <;> simp at hname
  · obtain ⟨k, rfl⟩ := Nat.exists_eq_add_of_le' hk
    have hcount := wordCount_alternating (k + 1)
    have halnum := isAlphanum_alternating (k + 1)
    cases case with
    | kebab | snake => cases hsep
    | camel =>
      exact ⟨'a' :: alternating (k + 1), NamePattern.begins_cons.mpr ⟨by decide, by decide, halnum⟩,
        ⟨'A', List.mem_cons_self, by decide⟩, hcount⟩
    | pascal =>
      refine ⟨'A' :: 'a' :: alternating (k + 1), NamePattern.begins_cons.mpr ⟨by decide, by decide, ?_⟩,
        ⟨'A', by simp [alternating], by decide⟩, ?_⟩
      · exact List.forall_mem_cons.mpr ⟨by decide, halnum⟩
      · rw [wordCount_cons_cons, hcount]
        rfl

theorem accepts_five_camel_words :
    ({ blockCase := .camel } : NamingOptions).isBlock "heroBannerVeryLargeImage" = true ∧
      ({ modifierCase := .pascal } : NamingOptions).isModifier "-OneTwoThree" = true := by
  have hjoined : WordCase.camel.separator? = none ∧ WordCase.pascal.separator? = none := ⟨rfl, rfl⟩
  have hblank : Text.IsWord "heroBannerVeryLargeImage" := by decide
  have hcamel := (accepts_iff_capital hjoined.1).1 { blockCase := .camel } rfl rfl
    "heroBannerVeryLargeImage" hblank.2
  have hpascal := (accepts_iff_capital hjoined.2).2.1 { modifierCase := .pascal } rfl rfl
    "-OneTwoThree"
  exact ⟨hcamel.1.mpr ⟨by decide +kernel, by decide, 'B', by decide, by decide⟩,
    hpascal.mpr ⟨"OneTwoThree".toList, by decide, .inl (by decide)⟩⟩

/-- Neither bound holds: a Block of three words where two are allowed, one of a single word, and a
modifier of three. -/
theorem accepts_miscounted_words :
    (({ blockCase := .camel } : NamingOptions).isBlock "heroBannerLarge" = true ∧
      ({ blockCase := .camel } : NamingOptions).blockMaxWords = 2 ∧
        wordCount "heroBannerLarge".toList = 3) ∧
    (({ blockCase := .pascal } : NamingOptions).isBlock "HB" = true ∧ wordCount "HB".toList = 1) ∧
    (({ modifierCase := .camel } : NamingOptions).isModifier "-oneTwoThree" = true ∧
      wordCount "oneTwoThree".toList = 3) := by
  decide +kernel

end BlockMarkup
