import BlockMarkup.Json.Basic

/-! # Writing JSON

The indented form of a value, with two blanks for each level.
-/

namespace BlockMarkup.Json

/-- A hexadecimal digit. -/
def hexDigit (n : Nat) : Char :=
  if n < 10 then Char.ofNat (48 + n) else Char.ofNat (87 + n)

/-- A character inside a quoted string. -/
def quoteChar (c : Char) : List Char :=
  if c = '"' then ['\\', '"']
  else if c = '\\' then ['\\', '\\']
  else if c = '\n' then ['\\', 'n']
  else if c = '\r' then ['\\', 'r']
  else if c = '\t' then ['\\', 't']
  else if c = '\x08' then ['\\', 'b']
  else if c = '\x0c' then ['\\', 'f']
  else if c.toNat < 32 then
    ['\\', 'u', '0', '0', hexDigit (c.toNat / 16), hexDigit (c.toNat % 16)]
  else [c]

/-- A quoted string. -/
def quote (s : String) : String :=
  "\"" ++ String.ofList (s.toList.flatMap quoteChar) ++ "\""

/-- The text of a number that is no integer. -/
def floatText : Binary64 → String
  | .nan => "NaN"
  | .infinite negative => if negative then "-Infinity" else "Infinity"
  | x => x.text

/-- A line break and the indentation of a level. -/
def lineStart (level : Nat) : String :=
  "\n" ++ String.ofList (List.replicate (2 * level) ' ')

mutual

/-- The indented form of a value at a level. -/
def renderAt (level : Nat) : Json → String
  | .null => "null"
  | .bool b => if b then "true" else "false"
  | .int n => toString n
  | .float x => floatText x
  | .str s => quote s
  | .arr [] => "[]"
  | .arr (v :: rest) =>
    "[" ++ lineStart (level + 1) ++ renderAt (level + 1) v ++ renderItems (level + 1) rest ++
      lineStart level ++ "]"
  | .obj [] => "\x7b\x7d"
  | .obj ((k, v) :: rest) =>
    "\x7b" ++ lineStart (level + 1) ++ quote k ++ ": " ++ renderAt (level + 1) v ++
      renderMembers (level + 1) rest ++ lineStart level ++ "\x7d"

/-- The items of an array after the first. -/
def renderItems (level : Nat) : List Json → String
  | [] => ""
  | v :: rest => "," ++ lineStart level ++ renderAt level v ++ renderItems level rest

/-- The members of an object after the first. -/
def renderMembers (level : Nat) : List (String × Json) → String
  | [] => ""
  | (k, v) :: rest =>
    "," ++ lineStart level ++ quote k ++ ": " ++ renderAt level v ++ renderMembers level rest

end

/-- The indented form of a value. -/
def render (v : Json) : String := renderAt 0 v

end BlockMarkup.Json
