import BlockMarkup.Proofs.Naming.Kinds
import BlockMarkup.Proofs.Naming.Source
import BlockMarkup.Proofs.Placeholder.Classes
import BlockMarkup.Proofs.Text.Letters

/-! # Blocks made of Elements

An Element becomes a Block by a word put behind it, with its first letter in the case that the word case of
Blocks asks for (`toList_blockOf`). That has the shape of a Block in all word cases and within any limit on
words (`blockShape_blockOf`), and does not begin like a modifier. Only `u` gets a reserved beginning, if the
word stands behind a hyphen (`classify_blockOf_of_element`).
-/

namespace BlockMarkup

open NamePattern (Begins IsLowerWord Joins)

variable {case otherCase : WordCase} {limit : Nat} {name : String} {c : Char} {s w : List Char}
  {n : NamingOptions}

namespace WordCase

/-! ## The first letter and the word put behind -/

/-- A letter in the case in which Blocks begin. -/
def firstLetter : WordCase → Char → Char
  | .pascal => Char.toUpper
  | .kebab | .snake | .camel => Char.toLower

/-- What stands behind an Element in the name of its Block. -/
def boxEnd : WordCase → List Char
  | .kebab => "-box".toList
  | .snake => "_box".toList
  | .camel | .pascal => "Box".toList

theorem isUpper_or_isLower_of_initial (h : case.initial c = true) : c.isUpper = true ∨ c.isLower = true := by
  cases case with
  | pascal => exact Or.inl h
  | kebab | snake | camel => exact Or.inr h

theorem initial_firstLetter (h : otherCase.initial c = true) : case.initial (case.firstLetter c) = true := by
  have hlower : c.toLower.isLower = true := by
    rcases isUpper_or_isLower_of_initial h with hupper | hlower
    · exact Text.isLower_toLower hupper
    · rwa [Text.toLower_eq_self (Text.isUpper_of_isLower hlower)]
  have hupper : c.toUpper.isUpper = true := by
    rcases isUpper_or_isLower_of_initial h with hupper | hlower
    · rwa [Text.toUpper_eq_self (Text.isLower_of_isUpper hupper)]
    · exact Text.isUpper_toUpper hlower
  cases case with
  | pascal => exact hupper
  | kebab | snake | camel => exact hlower

theorem ElementShape.begins (h : case.ElementShape s) : Begins case.initial s := by
  obtain ⟨c, s, rfl⟩ : ∃ c w, s = c :: w := by
    refine List.exists_cons_of_ne_nil ?_
    rintro rfl
    cases h.first
  exact NamePattern.begins_cons.mpr ⟨h.first, isAlphanum_of_initial h.first,
    fun d hd => Text.isAlphanum_iff.mpr (Or.inr (h.rest d hd))⟩

theorem ElementShape.firstLetter (h : otherCase.ElementShape (c :: w)) :
    case.ElementShape (case.firstLetter c :: w) :=
  ⟨initial_firstLetter h.first, h.rest⟩

/-- An Element and the word behind it have the shape of a Block. -/
theorem ElementShape.blockShape (h : otherCase.ElementShape (c :: w)) :
    case.BlockShape limit (case.firstLetter c :: (w ++ case.boxEnd)) := by
  have hfirst : case.ElementShape (case.firstLetter c :: w) := h.firstLetter
  cases hsep : case.separator? with
  | some sep =>
    have hlower : (case.firstLetter c).isLower = true := by
      cases case with
      | kebab | snake | camel => exact hfirst.first
      | pascal => cases hsep
    have hword : IsLowerWord (case.firstLetter c :: w) :=
      ⟨List.cons_ne_nil _ _, List.forall_mem_cons.mpr ⟨by rw [hlower, Bool.true_or], hfirst.rest⟩⟩
    have hbox : IsLowerWord "box".toList := by decide
    refine (blockShape_of_separator hsep).mpr ⟨[case.firstLetter c :: w, "box".toList],
      ⟨List.forall_mem_cons.mpr ⟨hword, List.forall_mem_singleton.mpr hbox⟩, ?_⟩, Nat.le_refl _,
      Nat.le_max_left _ _, _, rfl, hlower⟩
    cases case <;> cases hsep <;> simp [List.intercalate, boxEnd]
  | none =>
    have hend : case.boxEnd = "Box".toList := by
      cases case with
      | kebab | snake => cases hsep
      | camel | pascal => rfl
    rw [hend]
    exact (blockShape_of_capitals hsep).mpr
      ⟨hfirst.begins.append (List.all_eq_true.mp rfl), 'B', by simp, rfl⟩

/-- A hyphen stands in the second place only behind a single letter. -/
theorem ElementShape.isPrefix_u_iff (h : otherCase.ElementShape (c :: w)) :
    "u-".toList <+: case.firstLetter c :: (w ++ case.boxEnd) ↔
      case = .kebab ∧ w = [] ∧ (c = 'u' ∨ c = 'U') := by
  have hu : c.toLower = 'u' ↔ c = 'u' ∨ c = 'U' := by
    have hcodes : 'u'.toNat = 117 ∧ 'U'.toNat = 85 := ⟨rfl, rfl⟩
    rw [← Char.toNat_inj, ← Char.toNat_inj, ← Char.toNat_inj, Text.toNat_toLower]
    split
    · rename_i hupper
      rw [Text.isUpper_iff] at hupper
      omega
    · rename_i hupper
      rw [Text.isUpper_iff] at hupper
      omega
  change ['u', '-'] <+: _ ↔ _
  rw [List.cons_prefix_cons]
  cases w with
  | nil =>
    cases case with
    | kebab => simp [boxEnd, WordCase.firstLetter, ← hu, eq_comm]
    | snake | camel | pascal => simp [boxEnd]
  | cons d w =>
    have hd : d ≠ '-' := by
      rintro rfl
      cases h.rest '-' List.mem_cons_self
    simp [hd.symm]

end WordCase

namespace Placeholder

/-- The name of the Block is the Element with the word behind it. -/
theorem toList_blockOf (h : otherCase.ElementShape name.toList) (hname : name.toList = c :: w) :
    (blockOf n name).toList = n.blockCase.firstLetter c :: (w ++ n.blockCase.boxEnd) := by
  have hascii : ∀ d ∈ name.toList, d.toNat < 128 := by
    intro d hd
    have hcode := Text.toNat_of_isAlphanum (h.begins.alphanum d hd)
    omega
  rw [hname] at h
  have hcode : c.toNat < 128 := hascii c (by rw [hname]; exact List.mem_cons_self)
  have hlower : (Text.lower name).toList = c.toLower :: w := by
    have hsmall : w.map Char.toLower = w :=
      Text.map_toLower_eq_self fun d hd => Text.isUpper_of_isLowerOrDigit (h.rest d hd)
    rw [Text.toList_lower hascii, hname, List.map_cons, hsmall]
  have hfirst : ∀ (f : String → String) (d : Char), (f (String.singleton c)).toList = [d] →
      (mapFirst f name).toList = d :: w := by
    intro f d hf
    rw [mapFirst, hname, String.toList_append, hf, String.toList_ofList]
    rfl
  unfold blockOf
  cases n.blockCase with
  | kebab | snake =>
    rw [String.toList_append, hlower]
    rfl
  | camel =>
    have hsingle : (Text.lower (String.singleton c)).toList = [c.toLower] := by
      rw [Text.toList_lower (by simpa using hcode)]
      simp
    rw [String.toList_append, hfirst _ _ hsingle]
    rfl
  | pascal =>
    have hsingle : (Text.upper (String.singleton c)).toList = [c.toUpper] := by
      rw [Text.upper, String.toList_ofList, String.toList_singleton, List.flatMap_singleton,
        Text.upperOf_ascii hcode]
    rw [String.toList_append, hfirst _ _ hsingle]
    rfl

end Placeholder

namespace NamingOptions

open Placeholder (blockOf)

/-! ## Elements and their Blocks -/

/-- An Element without blanks in it is a letter with small letters and digits behind it. -/
theorem elementShape_of_classify (helement : n.custom.element = none)
    (hblank : ∀ c ∈ name.toList, Text.isBlank c = false) (h : n.classify name = .element) :
    n.elementCase.ElementShape name.toList := by
  have hmatches : (NamePattern.element n.elementCase).matchesName name = true := by
    rw [classify_eq] at h
    split at h
    · cases h
    · split at h
      · rename_i hisElement
        simp only [isElement, helement, patternMatches, Bool.and_eq_true] at hisElement
        exact hisElement.2
      · cases h
  obtain ⟨word, hword, hbreak⟩ := NamePattern.matchesName_element_shape.mp hmatches
  have hline : '\n' ∉ name.toList := fun hmem => by cases hblank _ hmem
  rwa [hbreak.eq_of_not_mem hline]

/-- A name that begins with a letter or a digit does not begin with the hyphen of modifiers. -/
theorem isModifier_of_first_isAlphanum (hmodifier : n.custom.modifier = none) (hlead : n.modifierPrefix = "-")
    (hfirst : name.toList.head?.any Char.isAlphanum = true) : n.isModifier name = false := by
  refine Bool.eq_false_iff.mpr fun h => ?_
  rw [isModifier, Bool.and_eq_true, modifierMatches_iff hmodifier, hlead] at h
  obtain ⟨-, body, -, hbody⟩ := h
  obtain ⟨rest, hname, -⟩ := hbody.exists_append
  rw [hname] at hfirst
  cases hfirst

/-- The letter in front stays one. -/
theorem first_isAlphanum_blockOf (h : otherCase.ElementShape name.toList) :
    (blockOf n name).toList.head?.any Char.isAlphanum = true := by
  obtain ⟨c, w, hname⟩ := List.exists_cons_of_ne_nil h.begins.ne_nil
  rw [Placeholder.toList_blockOf h hname]
  have hinitial : n.blockCase.initial (n.blockCase.firstLetter c) = true := by
    rw [hname] at h
    exact WordCase.initial_firstLetter h.first
  exact WordCase.isAlphanum_of_initial hinitial

/-- The Block of an Element is one, unless its name is reserved. -/
theorem isBlock_blockOf_iff (hblock : n.custom.block = none) (hmodifier : n.custom.modifier = none)
    (hlead : n.modifierPrefix = "-") (h : otherCase.ElementShape name.toList) :
    n.isBlock (blockOf n name) = true ↔ reserved (blockOf n name) = false := by
  have hfirst := first_isAlphanum_blockOf (n := n) h
  rw [isBlock_iff hblock]
  refine ⟨fun h => h.2.2.1, fun hreserved => ⟨?_, ?_, hreserved, ?_⟩⟩
  · exact isModifier_of_first_isAlphanum hmodifier hlead hfirst
  · intro hempty
    rw [hempty] at hfirst
    cases hfirst
  · obtain ⟨c, w, hname⟩ := List.exists_cons_of_ne_nil h.begins.ne_nil
    have htoList := Placeholder.toList_blockOf (n := n) h hname
    rw [hname] at h
    exact NamePattern.matchesName_block_shape.mpr ⟨_, htoList ▸ h.blockShape, Or.inl rfl⟩

theorem reserved_blockOf_iff (h : otherCase.ElementShape name.toList) :
    reserved (blockOf n name) = true ↔ n.blockCase = .kebab ∧ (name = "u" ∨ name = "U") := by
  obtain ⟨c, w, hname⟩ := List.exists_cons_of_ne_nil h.begins.ne_nil
  have hsingle : name = "u" ∨ name = "U" ↔ w = [] ∧ (c = 'u' ∨ c = 'U') := by
    rw [← String.toList_inj, ← String.toList_inj, hname]
    simp
    tauto
  rw [← Bool.not_eq_false, reserved_eq_false_iff (first_isAlphanum_blockOf h), not_not,
    Placeholder.toList_blockOf h hname, hsingle]
  rw [hname] at h
  exact h.isPrefix_u_iff

/-- Every Element becomes a Block in any word cases, except for `u` where a hyphen joins the words of
Blocks: names that begin with `u-` are of no kind. -/
theorem classify_blockOf_of_element (hblock : n.custom.block = none) (helement : n.custom.element = none)
    (hmodifier : n.custom.modifier = none) (hlead : n.modifierPrefix = "-")
    (hblank : ∀ c ∈ name.toList, Text.isBlank c = false) (h : n.classify name = .element) :
    n.classify (blockOf n name) =
      if n.blockCase = .kebab ∧ (name = "u" ∨ name = "U") then .invalid else .block := by
  have hshape := elementShape_of_classify helement hblank h
  have hreserved := reserved_blockOf_iff (n := n) hshape
  rw [classify_eq]
  split
  · rename_i hisBlock
    rw [isBlock_blockOf_iff hblock hmodifier hlead hshape] at hisBlock
    rw [hisBlock] at hreserved
    rw [if_neg (by simpa using hreserved)]
  · rename_i hisBlock
    rw [isBlock_blockOf_iff hblock hmodifier hlead hshape, Bool.not_eq_false] at hisBlock
    rw [if_pos (hreserved.mp hisBlock), (not_base_of_reserved hisBlock).2]
    rfl

/-- Elements with a capital in front, in a project that writes Blocks with hyphens. -/
theorem classify_blockOf_of_element_capital :
    ({ elementCase := .pascal } : NamingOptions).classify "Title2" = .element ∧
      ({ elementCase := .pascal } : NamingOptions).classify "title2-box" = .block := by
  have helement : ({ elementCase := .pascal } : NamingOptions).classify "Title2" = .element := by
    decide +kernel
  have hblank : ∀ c ∈ "Title2".toList, Text.isBlank c = false := by simp [Text.isBlank]
  have hname : blockOf { elementCase := .pascal } "Title2" = "title2-box" := by decide +kernel
  have hkind := classify_blockOf_of_element (n := { elementCase := .pascal }) rfl rfl rfl rfl hblank helement
  rw [hname] at hkind
  exact ⟨helement, hkind⟩

/-- An Element by the default rules whose Block is none. -/
theorem classify_blockOf_u :
    ({} : NamingOptions).classify "u" = .element ∧ blockOf {} "u" = "u-box" ∧
      ({} : NamingOptions).classify "u-box" = .invalid := by
  decide +kernel

end NamingOptions

end BlockMarkup
