import BlockMarkup.Text.Blank
import BlockMarkup.Naming.NamePattern
import BlockMarkup.Naming.Options

/-! # Selector policy

Which attributes carry the variants and the states of a component, whether classes may do so
instead, and how attribute values are named.
-/

namespace BlockMarkup

/-- Whether variants, or states, are written as attributes or as modifier classes. -/
inductive SelectorMode where
  | byData
  | byClass
deriving DecidableEq, Repr, Inhabited

/-- The axes of variation of a component. -/
inductive Axis where
  | variant
  | state
deriving DecidableEq, Repr

/-- How the values of an attribute are named. -/
structure ValueNaming where
  case : WordCase := .kebab
  maxWords : Nat := 2
deriving DecidableEq, Repr

/-- The rules for variants. -/
structure VariantPolicy where
  mode : SelectorMode := .byData
  dataKeys : List String := ["data-variant"]
  valueNaming : ValueNaming := {}
deriving DecidableEq, Repr

/-- The rules for states. -/
structure StatePolicy where
  mode : SelectorMode := .byData
  dataKey : String := "data-state"
  ariaKeys : List String := ["aria-expanded", "aria-selected", "aria-disabled"]
  valueNaming : ValueNaming := {}
deriving DecidableEq, Repr

/-- A policy with every setting filled in. -/
structure SelectorPolicy where
  valueNaming : ValueNaming := {}
  variant : VariantPolicy := {}
  state : StatePolicy := {}
deriving DecidableEq, Repr

/-- What makes a configured policy unusable. -/
inductive PolicyError where
  | mode (axis : Axis)
  | keyList (axis : Axis)
  | valueCase (axis : Option Axis)
  | maxWords (axis : Option Axis)
deriving DecidableEq, Repr

namespace SelectorMode

/-- The word by which configurations name the mode. -/
def name : SelectorMode → String
  | .byData => "data"
  | .byClass => "class"

/-- The mode of a given name. -/
def ofName? (s : String) : Option SelectorMode :=
  [SelectorMode.byData, .byClass].find? (·.name = s)

end SelectorMode

namespace Axis

/-- The word by which configurations name the axis. -/
def name : Axis → String
  | .variant => "variant"
  | .state => "state"

/-- The place of the settings of an axis. -/
def place (a : Axis) : String := "selectorPolicy." ++ a.name

/-- The key of the attribute list of an axis. -/
def listKey : Axis → String
  | .variant => "dataKeys"
  | .state => "ariaKeys"

end Axis

namespace PolicyError

/-- The place of the value naming of an axis, or of the common one. -/
def namingPlace : Option Axis → String
  | none => "selectorPolicy.valueNaming"
  | some a => a.place ++ ".valueNaming"

/-- What is told about the error. -/
def message : PolicyError → String
  | .mode a => a.place ++ ".mode must be \"data\" or \"class\"."
  | .keyList a => a.place ++ "." ++ a.listKey ++ " must be an array of non-empty strings."
  | .valueCase a =>
    namingPlace a ++ ".case must be \"kebab\" | \"snake\" | \"camel\" | \"pascal\"."
  | .maxWords a => namingPlace a ++ ".maxWords must be a positive integer."

end PolicyError

namespace ValueNaming

/-- Reads a value naming; what it leaves open comes from the fallback. -/
def read (place : Option Axis) (fallback : ValueNaming) (raw : Option Json) :
    Except PolicyError ValueNaming :=
  match raw with
  | some (.obj members) => do
    let case ← match Json.member? "case" members with
      | none | some .null => pure fallback.case
      | some v =>
        match WordCase.ofJson? v with
        | some c => pure c
        | none => throw (.valueCase place)
    let maxWords ← match Json.either? members "maxWords" "max_words" with
      | none | some .null => pure fallback.maxWords
      | some (.int n) => if n < 1 then throw (.maxWords place) else pure n.toNat
      | some _ => throw (.maxWords place)
    return ⟨case, maxWords⟩
  | _ => .ok fallback

/-- The pattern that a value has to match. -/
def pattern (v : ValueNaming) : Except Regex.ReadError NamePattern :=
  (NamePattern.value v.case v.maxWords).usable

end ValueNaming

namespace SelectorPolicy

/-- Whether an attribute carries variants. -/
def isVariantKey (p : SelectorPolicy) (key : String) : Bool :=
  p.variant.dataKeys.contains key

/-- Whether an attribute carries states. -/
def isStateKey (p : SelectorPolicy) (key : String) : Bool :=
  key == p.state.dataKey || p.state.ariaKeys.contains key

/-- Reads the mode of an axis. -/
def readMode (axis : Axis) (members : List (String × Json)) : Except PolicyError SelectorMode :=
  match Json.member? "mode" members with
  | none => .ok .byData
  | some v =>
    match v.str?.bind SelectorMode.ofName? with
    | some m => .ok m
    | none => .error (.mode axis)

/-- Reads the items of an attribute list. -/
def readKeys (axis : Axis) : List Json → Except PolicyError (List String)
  | [] => .ok []
  | .str s :: rest =>
    if Text.allBlank s then .error (.keyList axis)
    else (readKeys axis rest).map (Text.trimmed s :: ·)
  | _ :: _ => .error (.keyList axis)

/-- Reads an attribute list; an absent or empty one gives the default. -/
def readKeyList (axis : Axis) (fallback : List String) (raw : Option Json) :
    Except PolicyError (List String) :=
  match raw with
  | none | some .null | some (.arr []) => .ok fallback
  | some (.arr items) => readKeys axis items
  | some _ => .error (.keyList axis)

/-- Reads the attribute of states; anything unusable gives the default. -/
def readStateKey (raw : Option Json) : String :=
  match raw with
  | some (.str s) => if Text.allBlank s then "data-state" else Text.trimmed s
  | _ => "data-state"

/-- The policy that a configured value gives. A value that is no mapping gives the default, and
so does a part that is none; variants and states inherit the common value naming. -/
def fromConfig (raw : Json) : Except PolicyError SelectorPolicy :=
  match raw with
  | .obj members => do
    let part (key : String) := ((Json.member? key members).bind Json.members?).getD []
    let variant := part "variant"
    let state := part "state"
    let variantMode ← readMode .variant variant
    let stateMode ← readMode .state state
    let dataKeys ← readKeyList .variant ({} : VariantPolicy).dataKeys
      (Json.either? variant "dataKeys" "data_keys")
    let ariaKeys ← readKeyList .state ({} : StatePolicy).ariaKeys
      (Json.either? state "ariaKeys" "aria_keys")
    let naming (members : List (String × Json)) := Json.either? members "valueNaming" "value_naming"
    let base ← ValueNaming.read none {} (naming members)
    let variantNaming ← ValueNaming.read (some .variant) base (naming variant)
    let stateNaming ← ValueNaming.read (some .state) base (naming state)
    return {
      valueNaming := base
      variant := ⟨variantMode, dataKeys, variantNaming⟩
      state := ⟨stateMode, readStateKey (Json.either? state "dataKey" "data_key"), ariaKeys,
        stateNaming⟩ }
  | _ => .ok {}

end SelectorPolicy

end BlockMarkup
