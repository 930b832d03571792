import BlockMarkup.Text.Intervals
import BlockMarkup.Json.Basic

/-! # Reading JSON

Reads one JSON value from a text, and says what is wrong and where if there is none. Besides the
standard, `NaN` and the infinities are numbers; the last of several equal keys counts.
-/

namespace BlockMarkup.Json

/-- What is wrong at some place of a text. -/
inductive Fault where
  | expectingValue
  | expectingName
  | expectingColon
  | expectingComma
  | unterminatedString
  | controlCharacter
  | badEscape
  | badUnicodeEscape
  | extraData
  | byteOrderMark
  /-- An integer has more digits than are read. -/
  | longInteger (digits : Nat)
deriving DecidableEq, Repr

namespace Fault

/-- What the fault is called. -/
def describe : Fault → String
  | .expectingValue => "Expecting value"
  | .expectingName => "Expecting property name enclosed in double quotes"
  | .expectingColon => "Expecting ':' delimiter"
  | .expectingComma => "Expecting ',' delimiter"
  | .unterminatedString => "Unterminated string starting at"
  | .controlCharacter => "Invalid control character at"
  | .badEscape => "Invalid \\escape"
  | .badUnicodeEscape => "Invalid \\uXXXX escape"
  | .extraData => "Extra data"
  | .byteOrderMark => "Unexpected UTF-8 BOM (decode using utf-8-sig)"
  | .longInteger digits =>
    "Exceeds the limit (4300 digits) for integer string conversion: value has " ++
      toString digits ++ " digits; use sys.set_int_max_str_digits() to increase the limit"

end Fault

/-- A fault and the number of characters before it. -/
structure FaultAt where
  fault : Fault
  offset : Nat
deriving DecidableEq, Repr

/-- The line and the column of an offset, both counted from one. -/
def lineAndColumn (text : List Char) (offset : Nat) : Nat × Nat :=
  let read := text.take offset
  ((read.filter (· == '\n')).length + 1, (read.reverse.takeWhile (· != '\n')).length + 1)

/-- The description of a fault in a text, with its place. -/
def FaultAt.describe (f : FaultAt) (text : List Char) : String :=
  match f.fault with
  | .longInteger _ => f.fault.describe
  | _ =>
    let (line, column) := lineAndColumn text f.offset
    f.fault.describe ++ ": line " ++ toString line ++ " column " ++ toString column ++
      " (char " ++ toString f.offset ++ ")"

/-- What is left of a text, and how many characters stand before it. -/
structure Scan where
  rest : List Char
  pos : Nat

namespace Scan

/-- Drops a number of characters. -/
def advance (n : Nat) (s : Scan) : Scan := ⟨s.rest.drop n, s.pos + n⟩

/-- Drops the blanks that JSON allows between its parts. -/
def skipBlanks (s : Scan) : Scan :=
  s.advance (s.rest.takeWhile fun c => c == ' ' || c == '\t' || c == '\n' || c == '\r').length

/-- A fault at the current place. -/
def fail {α : Type} (s : Scan) (f : Fault) : Except FaultAt α := .error ⟨f, s.pos⟩

end Scan

/-- The value of four hexadecimal digits at the front of a text. -/
def hexCode? (s : List Char) : Option Nat :=
  let ds := s.take 4
  if ds.length = 4 ∧ ds.all fun c => (Text.hexDigit? c.toLower).isSome then
    some (ds.foldl (fun n c => n * 16 + (Text.hexDigit? c.toLower).getD 0) 0)
  else none

/-- The character of a code unit; half of a pair stands for no character. -/
def codeChar (n : Nat) : Char :=
  if 0xd800 ≤ n ∧ n ≤ 0xdfff then Char.ofNat 0xfffd else Char.ofNat n

/-- The character that a one-letter escape stands for. -/
def shortEscape? : Char → Option Char
  | '"' => some '"'
  | '\\' => some '\\'
  | '/' => some '/'
  | 'b' => some '\x08'
  | 'f' => some '\x0c'
  | 'n' => some '\n'
  | 'r' => some '\r'
  | 't' => some '\t'
  | _ => none

/-- Reads a code escape after its `u`: the character and how many characters it takes. -/
def readCodeEscape (s : Scan) : Except FaultAt (Char × Nat) :=
  match hexCode? s.rest with
  | none => .error ⟨.badUnicodeEscape, s.pos - 1⟩
  | some hi =>
    if s.rest.length ≤ 4 then .error ⟨.badUnicodeEscape, s.pos - 1⟩
    else
      match s.rest.drop 4 with
      | '\\' :: 'u' :: more =>
        if 0xd800 ≤ hi ∧ hi ≤ 0xdbff ∧ more.length > 4 then
          match hexCode? more with
          | none => .error ⟨.badUnicodeEscape, s.pos + 5⟩
          | some lo =>
            if 0xdc00 ≤ lo ∧ lo ≤ 0xdfff then
              .ok (Char.ofNat (0x10000 + (hi - 0xd800) * 1024 + (lo - 0xdc00)), 10)
            else .ok (codeChar hi, 4)
        else .ok (codeChar hi, 4)
      | _ => .ok (codeChar hi, 4)

/-- Reads the rest of a string that began at `start`; `out` holds what is read, last first. -/
def readStringFrom (start : Nat) : Nat → List Char → Scan → Except FaultAt (String × Scan)
  | 0, _, _ => .error ⟨.unterminatedString, start⟩
  | fuel + 1, out, s =>
    match s.rest with
    | [] => .error ⟨.unterminatedString, start⟩
    | '"' :: _ => .ok (String.ofList out.reverse, s.advance 1)
    | ['\\'] => .error ⟨.unterminatedString, start⟩
    | '\\' :: 'u' :: _ => do
      let (c, n) ← readCodeEscape (s.advance 2)
      readStringFrom start fuel (c :: out) (s.advance (2 + n))
    | '\\' :: e :: _ =>
      match shortEscape? e with
      | some c => readStringFrom start fuel (c :: out) (s.advance 2)
      | none => s.fail .badEscape
    | c :: _ =>
      if c.toNat ≤ 0x1f then s.fail .controlCharacter
      else readStringFrom start fuel (c :: out) (s.advance 1)

/-- Reads a string after its opening quote. -/
def readString (s : Scan) : Except FaultAt (String × Scan) :=
  readStringFrom (s.pos - 1) (s.rest.length + 1) [] s

/-- The number that decimal digits denote. -/
def decimal (ds : List Char) : Nat :=
  ds.foldl (fun n c => n * 10 + (c.toNat - 48)) 0

/-- Integers with more digits are not read. -/
def digitLimit : Nat := 4300

/-- Reads the digits of a fraction after its point; there must be some. -/
def fractionDigits : List Char → List Char
  | '.' :: rest => rest.takeWhile Char.isDigit
  | _ => []

/-- Reads an exponent after a number: its value and how many characters it takes, none if no digit
follows the mark. -/
def readExponent : List Char → Option (Int × Nat)
  | c :: rest =>
    if c = 'e' ∨ c = 'E' then
      let (negative, sign, ds) :=
        match rest with
        | '-' :: more => (true, 1, more.takeWhile Char.isDigit)
        | '+' :: more => (false, 1, more.takeWhile Char.isDigit)
        | _ => (false, 0, rest.takeWhile Char.isDigit)
      if ds.isEmpty then none
      else
        let n : Int := decimal (ds.dropWhile (· == '0') |>.take 12)
        some (if negative then -n else n, 1 + sign + ds.length)
    else none
  | [] => none

/-- Reads a number; `none` if there is none. -/
def readNumber (s : Scan) : Except FaultAt (Option (Json × Scan)) :=
  let (negative, s1) :=
    match s.rest with
    | '-' :: _ => (true, s.advance 1)
    | _ => (false, s)
  let whole :=
    match s1.rest with
    | '0' :: _ => ['0']
    | rest => rest.takeWhile Char.isDigit
  if whole.isEmpty then .ok none
  else
    let s2 := s1.advance whole.length
    let fraction := fractionDigits s2.rest
    let s3 := if fraction.isEmpty then s2 else s2.advance (fraction.length + 1)
    match readExponent s3.rest with
    | some (e, n) =>
      .ok (some (.float (.ofDecimal negative (decimal (whole ++ fraction)) (e - fraction.length)),
        s3.advance n))
    | none =>
      if !fraction.isEmpty then
        .ok (some (.float (.ofDecimal negative (decimal (whole ++ fraction)) (-fraction.length)),
          s3))
      else if whole.length > digitLimit then s.fail (.longInteger whole.length)
      else .ok (some (.int (if negative then -(decimal whole : Int) else decimal whole), s3))

/-- The words that stand for values. -/
def wordValues : List (List Char × Json) :=
  [("null".toList, .null), ("true".toList, .bool true), ("false".toList, .bool false),
    ("NaN".toList, .float .nan), ("Infinity".toList, .float (.infinite false)),
    ("-Infinity".toList, .float (.infinite true))]

mutual

/-- Reads a value. -/
def readValue (fuel : Nat) (s : Scan) : Except FaultAt (Json × Scan) :=
  match fuel with
  | 0 => s.fail .expectingValue
  | fuel + 1 =>
    match s.rest with
    | '"' :: _ => do
      let (t, s) ← readString (s.advance 1)
      return (.str t, s)
    | '\x7b' :: _ => do
      let s := (s.advance 1).skipBlanks
      if s.rest.head? = some '\x7d' then return (.obj [], s.advance 1)
      let (members, s) ← readMembers fuel [] s
      return (.obj members, s)
    | '[' :: _ => do
      let s := (s.advance 1).skipBlanks
      if s.rest.head? = some ']' then return (.arr [], s.advance 1)
      let (items, s) ← readItems fuel s
      return (.arr items, s)
    | rest =>
      match wordValues.find? (·.1.isPrefixOf rest) with
      | some (w, v) => .ok (v, s.advance w.length)
      | none => do
        match ← readNumber s with
        | some r => return r
        | none => s.fail .expectingValue

/-- Reads the members of an object up to its closing brace. -/
def readMembers (fuel : Nat) (members : List (String × Json)) (s : Scan) :
    Except FaultAt (List (String × Json) × Scan) :=
  match fuel with
  | 0 => s.fail .expectingName
  | fuel + 1 => do
    if s.rest.head? ≠ some '"' then s.fail .expectingName
    let (key, s) ← readString (s.advance 1)
    let s := s.skipBlanks
    if s.rest.head? ≠ some ':' then s.fail .expectingColon
    let (value, s) ← readValue fuel (s.advance 1).skipBlanks
    let members := setMember key value members
    let s := s.skipBlanks
    match s.rest.head? with
    | some '\x7d' => return (members, s.advance 1)
    | some ',' => readMembers fuel members (s.advance 1).skipBlanks
    | _ => s.fail .expectingComma

/-- Reads the items of an array up to its closing bracket. -/
def readItems (fuel : Nat) (s : Scan) : Except FaultAt (List Json × Scan) :=
  match fuel with
  | 0 => s.fail .expectingValue
  | fuel + 1 => do
    let (value, s) ← readValue fuel s
    let s := s.skipBlanks
    match s.rest.head? with
    | some ']' => return ([value], s.advance 1)
    | some ',' =>
      let (items, s) ← readItems fuel (s.advance 1).skipBlanks
      return (value :: items, s)
    | _ => s.fail .expectingComma

end

/-- Reads a text that consists of one value. A bracket in it opens two levels of reading. -/
def read (text : List Char) : Except FaultAt Json := do
  if text.head? = some (Char.ofNat 0xfeff) then throw ⟨.byteOrderMark, 0⟩
  let (v, s) ← readValue (2 * text.length + 1) (Scan.skipBlanks ⟨text, 0⟩)
  let s := s.skipBlanks
  if s.rest.isEmpty then return v else s.fail .extraData

end BlockMarkup.Json
