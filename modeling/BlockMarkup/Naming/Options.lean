import BlockMarkup.Text.Blank
import BlockMarkup.Naming.WordCase
import BlockMarkup.Naming.CustomPattern

/-! # Naming options

The naming rules of a project, and the third-party classes that are exempt from them. Settings
that cannot be used are replaced by their defaults, never refused.
-/

namespace BlockMarkup

/-- Reads a setting that may stand under either of two keys; the first one wins, whatever its
value. -/
def Json.either? (members : List (String × Json)) (key other : String) : Option Json :=
  match Json.member? key members with
  | some v => some v
  | none => Json.member? other members

/-- The custom patterns of a project. -/
structure CustomPatterns where
  block : Option CustomPattern := none
  element : Option CustomPattern := none
  modifier : Option CustomPattern := none

/-- The naming rules of a project. -/
structure NamingOptions where
  blockCase : WordCase := .kebab
  blockMaxWords : Nat := 2
  elementCase : WordCase := .kebab
  modifierCase : WordCase := .kebab
  modifierPrefix : String := "-"
  custom : CustomPatterns := {}

namespace CustomPatterns

/-- The patterns that a configured mapping gives. -/
def ofMembers (members : List (String × Json)) : Except Regex.ReadError CustomPatterns := do
  let pattern (key : String) := CustomPattern.coerce (.ofOption (Json.member? key members))
  return ⟨← pattern "block", ← pattern "element", ← pattern "modifier"⟩

end CustomPatterns

namespace NamingOptions

/-- The fewest words that the limit for Blocks can be set to. -/
def leastMaxWords : Nat := 2

/-- The most words that the limit for Blocks can be set to. -/
def greatestMaxWords : Nat := 100

/-- A configured word case, kebab case if it is none. -/
def readCase (v : Option Json) : WordCase :=
  (v.bind WordCase.ofJson?).getD .kebab

/-- A configured word limit, moved into its range. -/
def readMaxWords (v : Option Json) : Nat :=
  match v with
  | some (.int n) => (min (max n leastMaxWords) greatestMaxWords).toNat
  | _ => leastMaxWords

/-- A configured modifier prefix. -/
def readPrefix (v : Option Json) : String :=
  (v.bind Json.str?).getD "-"

/-- The options that a configured value gives. Only a pattern with an impossible repetition count
is an error. -/
def fromConfig (raw : Json) : Except Regex.ReadError NamingOptions := do
  let members := raw.members?.getD []
  let setting := Json.either? members
  let custom ← CustomPatterns.ofMembers
    (((setting "customPatterns" "custom_patterns").bind Json.members?).getD [])
  return {
    blockCase := readCase (setting "blockCase" "block_case")
    blockMaxWords := readMaxWords (setting "blockMaxWords" "block_max_words")
    elementCase := readCase (setting "elementCase" "element_case")
    modifierCase := readCase (setting "modifierCase" "modifier_case")
    modifierPrefix := readPrefix (setting "modifierPrefix" "modifier_prefix")
    custom := custom }

end NamingOptions

/-- Third-party classes that the naming rules leave alone. -/
structure ExternalOptions where
  classes : List String := []
  prefixes : List String := []

namespace ExternalOptions

/-- The texts of a configured list that are not blank. -/
def readTexts : Option Json → List String
  | some (.arr items) => (items.filterMap Json.str?).filter fun s => !Text.allBlank s
  | _ => []

/-- The options that a configured value gives. -/
def fromConfig (raw : Json) : ExternalOptions :=
  let members := raw.members?.getD []
  ⟨readTexts (Json.either? members "allowExternalClasses" "classes"),
    readTexts (Json.either? members "allowExternalPrefixes" "prefixes")⟩

/-- Whether a class is exempt. -/
def covers (e : ExternalOptions) (name : String) : Bool :=
  e.classes.contains name || e.prefixes.any (·.toList.isPrefixOf name.toList)

end ExternalOptions

end BlockMarkup
