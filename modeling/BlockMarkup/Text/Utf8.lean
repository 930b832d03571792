import BlockMarkup.Text.Quoted

/-! # UTF-8

Texts as bytes. Reading refuses what is no UTF-8 and says which bytes are to blame. Main statement:
bytes below 128 stand for themselves.
-/

namespace BlockMarkup.Text.Utf8

/-- Why bytes are no UTF-8. -/
inductive Reason where
  | startByte
  | continuationByte
  | truncated
deriving DecidableEq, Repr

/-- Bytes that are no UTF-8: the first of them, where it stands and where they end. -/
structure Fault where
  reason : Reason
  byte : UInt8
  start : Nat
  stop : Nat
deriving DecidableEq, Repr

namespace Reason

/-- What is told about the reason. -/
def describe : Reason → String
  | .startByte => "invalid start byte"
  | .continuationByte => "invalid continuation byte"
  | .truncated => "unexpected end of data"

end Reason

namespace Fault

/-- What is told about the fault. -/
def message (f : Fault) : String :=
  let place :=
    if f.stop = f.start + 1 then
      "byte 0x" ++ String.ofList (hexDigits 2 f.byte.toNat) ++ " in position " ++ toString f.start
    else
      "bytes in position " ++ toString f.start ++ "-" ++ toString (f.stop - 1)
  "'utf-8' codec can't decode " ++ place ++ ": " ++ f.reason.describe

end Fault

/-- The range of most continuation bytes. -/
def anyTail : Nat × Nat := (0x80, 0xbf)

/-- The bits that the first byte of a character gives, and the ranges of the bytes after it. -/
def lead? (n : Nat) : Option (Nat × List (Nat × Nat)) :=
  if n < 0x80 then some (n, [])
  else if 0xc2 ≤ n ∧ n ≤ 0xdf then some (n - 0xc0, [anyTail])
  else if 0xe0 ≤ n ∧ n ≤ 0xef then
    some (n - 0xe0, [(if n = 0xe0 then 0xa0 else 0x80, if n = 0xed then 0x9f else 0xbf), anyTail])
  else if 0xf0 ≤ n ∧ n ≤ 0xf4 then
    some (n - 0xf0,
      [(if n = 0xf0 then 0x90 else 0x80, if n = 0xf4 then 0x8f else 0xbf), anyTail, anyTail])
  else none

/-- Adds the bits of continuation bytes; fails with a reason and the number of bytes that were
in order. -/
def addTail (good value : Nat) : List (Nat × Nat) → List UInt8 → Except (Reason × Nat) Nat
  | [], _ => .ok value
  | _ :: _, [] => .error (.truncated, good)
  | (least, most) :: ranges, b :: rest =>
    if least ≤ b.toNat ∧ b.toNat ≤ most then
      addTail (good + 1) (value * 64 + (b.toNat - 0x80)) ranges rest
    else .error (.continuationByte, good)

/-- Reads the character that begins with a byte, and says how many bytes follow the first. -/
def character (a : UInt8) (rest : List UInt8) : Except (Reason × Nat) (Char × Nat) :=
  match lead? a.toNat with
  | none => .error (.startByte, 1)
  | some (bits, ranges) => (addTail 1 bits ranges rest).map fun n => (Char.ofNat n, ranges.length)

/-- Reads the rest of some bytes: `skip` of them belong to a character that has been read, and
`pos` stand before them. -/
def decodeFrom : Nat → Nat → List UInt8 → Except Fault (List Char)
  | _, _, [] => .ok []
  | skip + 1, pos, _ :: rest => decodeFrom skip (pos + 1) rest
  | 0, pos, a :: rest =>
    match character a rest with
    | .ok (c, more) => (decodeFrom more (pos + 1) rest).map (c :: ·)
    | .error (reason, n) => .error ⟨reason, a, pos, pos + n⟩

/-- The text that bytes stand for. -/
def decode (bytes : List UInt8) : Except Fault (List Char) :=
  decodeFrom 0 0 bytes

/-- The bytes that stand for a text. -/
def encode (s : List Char) : List UInt8 :=
  s.flatMap String.utf8EncodeChar

theorem character_ascii (a : UInt8) (rest : List UInt8) (h : a.toNat < 0x80) :
    character a rest = .ok (Char.ofNat a.toNat, 0) := by
  simp [character, lead?, h, addTail, Except.map]

/-- Bytes below 128 stand for themselves. -/
theorem decodeFrom_ascii (bytes : List UInt8) (pos : Nat) (h : ∀ b ∈ bytes, b.toNat < 0x80) :
    decodeFrom 0 pos bytes = .ok (bytes.map fun b => Char.ofNat b.toNat) := by
  induction bytes generalizing pos with
  | nil => rfl
  | cons a r ih =>
    rw [decodeFrom, character_ascii a r (h a (by simp))]
    simp [ih (pos + 1) fun b hb => h b (by simp [hb]), Except.map]

end BlockMarkup.Text.Utf8
