import BlockMarkup.Text.Intervals
import BlockMarkup.Regex.Match
import BlockMarkup.Markup.EntityTable

/-! # Character references

Named and numeric references in text and in attribute values. Text takes a whole name or none;
a value takes the longest known beginning of a name.
-/

namespace BlockMarkup.Markup

/-- A named character. -/
structure Entity where
  name : List Char
  /-- Whether the name may stand without a semicolon. -/
  bare : Bool
  text : List Char

namespace Entity

/-- Reads a row of the table. -/
def ofRow (row : List Char) : Entity :=
  let (bare, row) := match row with
    | '!' :: rest => (true, rest)
    | _ => (false, row)
  ⟨row.takeWhile (· != '='), bare,
    ((Text.readRowsFrom [] none ((row.dropWhile (· != '=')).drop 1)).flatten).map Char.ofNat⟩

/-- Cuts the table text into rows at blanks and line breaks. -/
def rowsFrom (row : List Char) : List Char → List (List Char)
  | [] => if row.isEmpty then [] else [row.reverse]
  | c :: rest =>
    if c == ' ' || c == '\n' then
      if row.isEmpty then rowsFrom [] rest else row.reverse :: rowsFrom [] rest
    else rowsFrom (c :: row) rest

end Entity

/-- All named characters. -/
def entities : List Entity := (Entity.rowsFrom [] entityTableText.toList).map .ofRow

/-- The characters that a name stands for; `bare` asks for the names that need no semicolon. -/
def entityText? (bare : Bool) (name : List Char) : Option (List Char) :=
  if name = "amp".toList then some ['&']
  else if name = "lt".toList then some ['<']
  else if name = "gt".toList then some ['>']
  else if name = "quot".toList then some ['"']
  else (entities.find? fun e => e.name == name && (!bare || e.bare)).map Entity.text

/-- The characters that codes from 128 to 159 stand for. -/
def controlImages : List Nat := [
  0x20ac, 0x81, 0x201a, 0x192, 0x201e, 0x2026, 0x2020, 0x2021, 0x2c6, 0x2030, 0x160, 0x2039, 0x152,
  0x8d, 0x17d, 0x8f, 0x90, 0x2018, 0x2019, 0x201c, 0x201d, 0x2022, 0x2013, 0x2014, 0x2dc, 0x2122,
  0x161, 0x203a, 0x153, 0x9d, 0x17e, 0x178]

/-- The code that a written code stands for. -/
def imageCode (n : Nat) : Nat :=
  if 0x80 ≤ n ∧ n < 0xa0 then controlImages.getD (n - 0x80) n else n

/-- The character of a code; there is a replacement for codes without one. -/
def codeText (n : Nat) : Char :=
  if n = 0 ∨ (0xd800 ≤ n ∧ n ≤ 0xdfff) ∨ n > 0x10ffff then Char.ofNat 0xfffd
  else Char.ofNat (imageCode n)

/-- Codes that stand for nothing in an attribute value. -/
def isVoidCode (n : Nat) : Bool :=
  (1 ≤ n && n ≤ 8) || n == 0xb || (0xe ≤ n && n ≤ 0x1f) || n == 0x7f ||
    (0xfdd0 ≤ n && n ≤ 0xfdef) ||
    (n ≤ 0x10ffff && (n % 0x10000 == 0xfffe || n % 0x10000 == 0xffff))

/-- The number that digits denote in a base. -/
def codeOf (base : Nat) (ds : List Char) : Nat :=
  ds.foldl (fun n c => n * base + (Text.hexDigit? c.toLower).getD 0) 0

/-- The code of a numeric reference, without its marks. -/
def numericCode : List Char → Nat
  | 'x' :: ds => codeOf 16 ds
  | 'X' :: ds => codeOf 16 ds
  | ds => codeOf 10 ds

/-- The text of a reference by name in text; an unknown name stays as it is written. -/
def namedText (name : List Char) : List Char :=
  (entityText? false name).getD ('&' :: name)

namespace Pattern

/-- Hexadecimal digits. -/
def hexSet : Regex.CharSet :=
  ((Regex.CharSet.between '0' '9').or (.between 'a' 'f')).or (.between 'A' 'F')

/-- A reference in an attribute value: its inside is group 1. -/
def reference : Regex :=
  let semicolon : Regex := .opt (.text ";")
  .text "&" ++ .group 1 (.oneOf [
    .text "#" ++ .many1 (.between '0' '9') ++ semicolon,
    .text "#" ++ .one (.ofList ['x', 'X']) ++ .many1 hexSet ++ semicolon,
    .span (Regex.CharSet.ofList ['\t', '\n', '\x0c', ' ', '<', '&', '#', ';']).not 1 (some 32)
      .greedy ++ semicolon])

end Pattern

/-- The longest beginning of a name, of two or more characters, that stands for something without
a semicolon, tried from `n` characters down. -/
def longestName (name : List Char) : Nat → Option (List Char)
  | 0 => none
  | n + 1 =>
    if n + 1 < 2 then none
    else
      match entityText? true (name.take (n + 1)) with
      | some t => some (t ++ name.drop (n + 1))
      | none => longestName name n

/-- The text of a reference in an attribute value, given its inside. -/
def valueReference (inside : List Char) : List Char :=
  match inside with
  | '#' :: digits =>
    let n := numericCode (digits.filter (· != ';'))
    if isVoidCode n then [] else [codeText n]
  | _ =>
    let name := inside.filter (· != ';')
    match entityText? (name.length == inside.length) name with
    | some t => t
    | none => (longestName inside (inside.length - 1)).getD ('&' :: inside)

/-- An attribute value with its references resolved. -/
def resolveValue (s : List Char) : List Char :=
  Pattern.reference.replaceAll (fun m => valueReference (m.group 1)) s

end BlockMarkup.Markup
