import BlockMarkup.Text.Blank
import BlockMarkup.Text.Case
import BlockMarkup.Json.Basic

/-! # File names

How a class name is cut into words and rewritten as the base of a file name.
-/

namespace BlockMarkup

/-- How file names are written. -/
inductive FileCase where
  | preserve
  | kebab
  | snake
  | camel
  | pascal
deriving DecidableEq, Repr, Inhabited

namespace FileCase

/-- The word by which configurations name the case. -/
def name : FileCase → String
  | .preserve => "preserve"
  | .kebab => "kebab"
  | .snake => "snake"
  | .camel => "camel"
  | .pascal => "pascal"

/-- The case of a given name; an unknown one leaves names as they are. -/
def ofName (s : String) : FileCase :=
  ([FileCase.kebab, .snake, .camel, .pascal].find? (·.name = s)).getD .preserve

/-- The case that a configured value names. -/
def ofJson (v : Json) : FileCase :=
  (v.str?.map ofName).getD .preserve

end FileCase

namespace FileName

/-- Lower-case ASCII letters and digits. -/
def isLowerOrDigit (c : Char) : Bool := c.isLower || c.isDigit

/-- Whether a word ends between `a` and `b`: at a capital after a small letter or digit, and before
the last capital of a row that a small letter follows. -/
def endsBetween (a b : Char) (next : Option Char) : Bool :=
  (isLowerOrDigit a && b.isUpper) || (a.isUpper && b.isUpper && next.any Char.isLower)

/-- Puts blanks where the letter case says that a word ends. -/
def breakCase : List Char → List Char
  | a :: b :: rest =>
    if endsBetween a b rest.head? then a :: ' ' :: breakCase (b :: rest)
    else a :: breakCase (b :: rest)
  | s => s

/-- Puts blanks in place of hyphens and underscores. -/
def breakMarks (s : List Char) : List Char :=
  s.map fun c => if c == '-' || c == '_' then ' ' else c

/-- The words of a class name. -/
def splitWords (name : String) : List String :=
  (Text.wordsOf (breakCase (breakMarks name.toList))).map String.ofList

/-- The base of the file name for a class. -/
def format (name : String) (case : FileCase) : String :=
  match case, (splitWords name).map Text.lower with
  | .preserve, _ => name
  | _, [] => name
  | .kebab, ws => "-".intercalate ws
  | .snake, ws => "_".intercalate ws
  | .camel, w :: ws => w ++ String.join (ws.map Text.capitalized)
  | .pascal, ws => String.join (ws.map Text.capitalized)

end FileName

end BlockMarkup
