import BlockMarkup.Number.Binary64

/-! # JSON values

Values as configuration files hold them. Integers and other numbers are told apart, and the
members of an object keep the order in which their keys first appear.
-/

namespace BlockMarkup

/-- A JSON value. -/
inductive Json where
  | null
  | bool (b : Bool)
  | int (n : Int)
  | float (x : Binary64)
  | str (s : String)
  | arr (items : List Json)
  | obj (members : List (String × Json))
deriving Repr

namespace Json

instance : Inhabited Json := ⟨.null⟩

/-- Sets a member: a known key keeps its place and gets the new value, a new one comes last. -/
def setMember (key : String) (value : Json) : List (String × Json) → List (String × Json)
  | [] => [(key, value)]
  | (k, v) :: rest =>
    if k = key then (k, value) :: rest else (k, v) :: setMember key value rest

/-- The value of the member with a given key. -/
def member? (key : String) (members : List (String × Json)) : Option Json :=
  members.lookup key

/-- The members of an object. -/
def members? : Json → Option (List (String × Json))
  | .obj members => some members
  | _ => none

/-- The text of a string value. -/
def str? : Json → Option String
  | .str s => some s
  | _ => none

/-- The integer of an integer value; booleans and other numbers are none. -/
def int? : Json → Option Int
  | .int n => some n
  | _ => none

/-- Whether a value is null. -/
def isNull : Json → Bool
  | .null => true
  | _ => false

/-- Whether a value counts as given: null, false, zero and everything empty do not. -/
def isGiven : Json → Bool
  | .null => false
  | .bool b => b
  | .int n => n != 0
  | .float x => !x.isZero
  | .str s => s != ""
  | .arr items => !items.isEmpty
  | .obj members => !members.isEmpty

/-- A value with null in place of an absent one. -/
def ofOption (v : Option Json) : Json := v.getD .null

end Json

end BlockMarkup
