import BlockMarkup.Json.Basic

/-! # Word cases

The four ways to join words into one name.
-/

namespace BlockMarkup

/-- How the words of a name are joined and capitalized. -/
inductive WordCase where
  | kebab
  | snake
  | camel
  | pascal
deriving DecidableEq, Repr, Inhabited

namespace WordCase

/-- The word by which configurations name the case. -/
def name : WordCase → String
  | .kebab => "kebab"
  | .snake => "snake"
  | .camel => "camel"
  | .pascal => "pascal"

/-- The case of a given name. -/
def ofName? (s : String) : Option WordCase :=
  [WordCase.kebab, .snake, .camel, .pascal].find? (·.name = s)

/-- The case that a configured value names. -/
def ofJson? (v : Json) : Option WordCase :=
  v.str?.bind ofName?

theorem ofName?_name (c : WordCase) : ofName? c.name = some c := by
  cases c <;> decide

end WordCase

end BlockMarkup
