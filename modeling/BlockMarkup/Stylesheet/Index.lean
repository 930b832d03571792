import BlockMarkup.Text.Lines
import BlockMarkup.Unique

/-! # Index stylesheets

The index of a directory uses every stylesheet in it. New lines are merged into an index that is
already there.
-/

namespace BlockMarkup.StylesheetIndex

/-- The name of the file that holds an index. -/
def fileName : String := "index.scss"

/-- Whether a line uses a stylesheet. -/
def isUse (line : List Char) : Bool := "@use".toList.isPrefixOf line

/-- The lines of a text that use stylesheets. -/
def usesIn (s : List Char) : List (List Char) :=
  (Text.linesOf s).filter isUse

/-- The text of an index. -/
def ofUses (uses : List (List Char)) : List Char :=
  Text.joined uses ++ ['\n']

/-- The index with further lines. Lines that are there already stay first, and all that is no use
of a stylesheet is dropped. -/
def merge (existing : List Char) (entries : List (List Char)) : List Char :=
  ofUses (unique (usesIn existing ++ entries))

end BlockMarkup.StylesheetIndex
