import BlockMarkup.Proofs.Naming.Language

/-! # The case of letters in names

Names are made of ASCII characters, and for those the case of a text is the case of each of its characters
(`toList_lower`, `toList_capitalized`). Lower and upper case of a letter undo each other, and digits have
neither.
-/

namespace BlockMarkup

open LetterClass (isAlphanum_eq isDigit_eq isLower_eq isUpper_eq)

namespace Text

variable {c : Char} {s : String} {cs : List Char}

/-! ## Letters -/

theorem isUpper_iff : c.isUpper = true ↔ 65 ≤ c.toNat ∧ c.toNat ≤ 90 := by
  rw [isUpper_eq, decide_eq_true_eq]

theorem isLower_iff : c.isLower = true ↔ 97 ≤ c.toNat ∧ c.toNat ≤ 122 := by
  rw [isLower_eq, Bool.and_eq_true, decide_eq_true_eq, decide_eq_true_eq]

theorem isLowerOrDigit_iff : FileName.isLowerOrDigit c = true ↔
    (97 ≤ c.toNat ∧ c.toNat ≤ 122) ∨ (48 ≤ c.toNat ∧ c.toNat ≤ 57) := by
  rw [FileName.isLowerOrDigit, Bool.or_eq_true, isLower_iff, isDigit_eq, Bool.and_eq_true,
    decide_eq_true_eq, decide_eq_true_eq]

theorem isAlphanum_iff : c.isAlphanum = true ↔
    c.isUpper = true ∨ FileName.isLowerOrDigit c = true := by
  rw [isAlphanum_eq, Bool.or_assoc, Bool.or_eq_true, FileName.isLowerOrDigit]

theorem isAlpha_eq (c : Char) : c.isAlpha = (c.isUpper || c.isLower) := rfl

theorem isUpper_of_isLowerOrDigit (h : FileName.isLowerOrDigit c = true) : c.isUpper = false := by
  rw [isLowerOrDigit_iff] at h
  rw [Bool.eq_false_iff, Ne, isUpper_iff]
  omega

theorem isUpper_of_isLower (h : c.isLower = true) : c.isUpper = false :=
  isUpper_of_isLowerOrDigit (by rw [FileName.isLowerOrDigit, h, Bool.true_or])

theorem isLower_of_isUpper (h : c.isUpper = true) : c.isLower = false := by
  refine Bool.eq_false_iff.mpr fun hlower => ?_
  rw [isUpper_of_isLower hlower] at h
  cases h

theorem toNat_of_isAlphanum (h : c.isAlphanum = true) : 48 ≤ c.toNat ∧ c.toNat ≤ 122 := by
  rw [isAlphanum_iff, isUpper_iff, isLowerOrDigit_iff] at h
  omega

theorem isBlank_of_isAlphanum (h : c.isAlphanum = true) : isBlank c = false := by
  have hcode := toNat_of_isAlphanum h
  simp [isBlank]
  omega

theorem toNat_toLower (c : Char) : c.toLower.toNat = if c.isUpper then c.toNat + 32 else c.toNat := by
  delta Char.toLower
  split
  · rename_i h
    have hupper : 65 ≤ c.toNat ∧ c.toNat ≤ 90 := h
    have hstep : ('a'.val - 'A'.val).toNat = 32 := rfl
    have hcode : c.val.toNat = c.toNat := rfl
    rw [if_pos (isUpper_iff.mpr hupper), Char.toNat_mk, UInt32.toNat_add, hstep]
    omega
  · rename_i h
    exact (if_neg fun hupper => h (isUpper_iff.mp hupper)).symm

theorem toNat_toUpper (c : Char) : c.toUpper.toNat = if c.isLower then c.toNat - 32 else c.toNat := by
  delta Char.toUpper
  split
  · rename_i h
    have hlower : 97 ≤ c.toNat ∧ c.toNat ≤ 122 := h
    -- the step down is a step up around the end of the range
    have hstep : ('A'.val - 'a'.val).toNat = 2 ^ 32 - 32 := rfl
    have hcode : c.val.toNat = c.toNat := rfl
    rw [if_pos (isLower_iff.mpr hlower), Char.toNat_mk, UInt32.toNat_add, hstep]
    omega
  · rename_i h
    exact (if_neg fun hlower => h (isLower_iff.mp hlower)).symm

theorem toLower_eq_self (h : c.isUpper = false) : c.toLower = c := by
  rw [← Char.toNat_inj, toNat_toLower, h]
  rfl

theorem toUpper_eq_self (h : c.isLower = false) : c.toUpper = c := by
  rw [← Char.toNat_inj, toNat_toUpper, h]
  rfl

theorem isLower_toLower (h : c.isUpper = true) : c.toLower.isLower = true := by
  have hcode := toNat_toLower c
  rw [if_pos h] at hcode
  rw [isUpper_iff] at h
  rw [isLower_iff]
  omega

theorem toLower_toLower (c : Char) : c.toLower.toLower = c.toLower := by
  refine toLower_eq_self ?_
  cases hupper : c.isUpper with
  | true => exact isUpper_of_isLower (isLower_toLower hupper)
  | false => rwa [toLower_eq_self hupper]

theorem isUpper_toUpper (h : c.isLower = true) : c.toUpper.isUpper = true := by
  have hcode := toNat_toUpper c
  rw [if_pos h] at hcode
  rw [isLower_iff] at h
  rw [isUpper_iff]
  omega

theorem toUpper_toLower (h : c.isUpper = true) : c.toLower.toUpper = c := by
  rw [← Char.toNat_inj, toNat_toUpper, if_pos (isLower_toLower h), toNat_toLower, if_pos h]
  omega

theorem toLower_toUpper (h : c.isUpper = false) : c.toUpper.toLower = c := by
  rw [← Char.toNat_inj, toNat_toLower]
  cases hlower : c.isLower with
  | true =>
    have hcode := isLower_iff.mp hlower
    rw [if_pos (isUpper_toUpper hlower), toNat_toUpper, if_pos hlower]
    omega
  | false => rw [toUpper_eq_self hlower, h, if_neg Bool.false_ne_true]

theorem isAlphanum_toUpper (h : c.isAlphanum = true) : c.toUpper.isAlphanum = true := by
  cases hlower : c.isLower with
  | true => exact isAlphanum_iff.mpr (Or.inl (isUpper_toUpper hlower))
  | false => rwa [toUpper_eq_self hlower]

/-- In lower case there are no capitals left among letters and digits. -/
theorem isLowerOrDigit_toLower (h : c.isAlphanum = true) : FileName.isLowerOrDigit c.toLower = true := by
  rcases isAlphanum_iff.mp h with hupper | hsmall
  · rw [FileName.isLowerOrDigit, isLower_toLower hupper, Bool.true_or]
  · rwa [toLower_eq_self (isUpper_of_isLowerOrDigit hsmall)]

/-! ## Texts -/

theorem map_toLower_eq_self (h : ∀ c ∈ cs, c.isUpper = false) : cs.map Char.toLower = cs := by
  have hkeeps : ∀ c ∈ cs, c.toLower = id c := fun c hc => toLower_eq_self (h c hc)
  rw [List.map_congr_left hkeeps, List.map_id]

theorem lowerOf_ascii (h : c.toNat < 128) : lowerOf c = [c.toLower] := by
  rw [lowerOf, if_neg (by omega), lowerChar, if_pos h]

theorem upperOf_ascii (h : c.toNat < 128) : upperOf c = [c.toUpper] := by
  rw [upperOf, if_pos h]

theorem lowerFrom_ascii (h : ∀ c ∈ cs, c.toNat < 128) (before : List Char) :
    lowerFrom before cs = cs.map Char.toLower := by
  induction cs generalizing before with
  | nil => rfl
  | cons c cs ih =>
    rw [List.forall_mem_cons] at h
    rw [lowerFrom, if_neg (by omega), lowerOf_ascii h.1, ih h.2]
    rfl

theorem toList_lower (h : ∀ c ∈ s.toList, c.toNat < 128) :
    (lower s).toList = s.toList.map Char.toLower := by
  rw [lower, String.toList_ofList, lowerChars, lowerFrom_ascii h]

theorem toList_capitalized (hs : s.toList = c :: cs) (h : c.toNat < 128) :
    (capitalized s).toList = c.toUpper :: cs := by
  rw [capitalized, hs]
  show (String.ofList (upperOf c ++ cs)).toList = c.toUpper :: cs
  rw [String.toList_ofList, upperOf_ascii h]
  rfl

end Text

end BlockMarkup
