/-! # Paths

Paths of files as lists of names. Names that lead to the parent directory stay where they are until
a path is resolved.
-/

namespace BlockMarkup

/-- A path. -/
structure Path where
  absolute : Bool
  names : List String
deriving DecidableEq, Repr

namespace Path

/-- The name that leads to the parent directory. -/
def parentName : String := ".."

/-- What stands between the slashes of a text. -/
def segments : List Char → List (List Char)
  | [] => [[]]
  | c :: rest =>
    if c = '/' then [] :: segments rest
    else
      match segments rest with
      | [] => [[c]]
      | segment :: others => (c :: segment) :: others

/-- The path that a text gives. Empty names and single dots have no meaning. -/
def ofString (s : String) : Path :=
  ⟨"/".toList.isPrefixOf s.toList,
    ((segments s.toList).map String.ofList).filter fun n => n != "" && n != "."⟩

/-- The text of a path. -/
def text (p : Path) : String :=
  if p.absolute then "/" ++ "/".intercalate p.names
  else if p.names.isEmpty then "."
  else "/".intercalate p.names

/-- A path taken from the place that another one leads to. -/
def join (p q : Path) : Path :=
  if q.absolute then q else ⟨p.absolute, p.names ++ q.names⟩

/-- The path without its last name. -/
def parent (p : Path) : Path := ⟨p.absolute, p.names.dropLast⟩

/-- Goes from one place to the next, each as the list of names that lead to it. -/
def step (place : List String) (name : String) : List String :=
  if name = parentName then place.dropLast else place ++ [name]

/-- The absolute path without names that lead to the parent directory. -/
def resolve (directory p : Path) : Path :=
  ⟨true, (directory.join p).names.foldl step []⟩

end Path

end BlockMarkup
