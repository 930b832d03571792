import BlockMarkup.Json.Reader
import BlockMarkup.Text.Utf8
import BlockMarkup.Text.Lines

/-! # Configurations

The settings of a project as one JSON value, how they are found by path, and how they are read
from the bytes of a file.
-/

namespace BlockMarkup

/-- A configuration. Only a mapping sets anything. -/
structure Config where
  value : Json := .null

namespace Config

/-- The name that the configuration file has by default. -/
def fileName : String := "spiracss.config.json"

/-- The value at the end of a path of keys, null if the path leads nowhere. -/
def follow : List String → Json → Json
  | [], v => v
  | key :: rest, .obj members => follow rest (.ofOption (Json.member? key members))
  | _ :: _, _ => .null

/-- The setting at a path; null counts as not set. -/
def setting? (c : Config) (path : List String) : Option Json :=
  match follow path c.value with
  | .null => none
  | v => some v

/-- The mapping at a path. -/
def members? (c : Config) (path : List String) : Option (List (String × Json)) :=
  (follow path c.value).members?

/-- The keys of a path that is written with dots. -/
def keysOf (path : String) : List String := path.splitOn "."

/-- Why a configuration file cannot be used. -/
inductive LoadError where
  | inaccessible
  | notJson (cause : Json.FaultAt) (text : List Char)
  | notMapping
  | notText (fault : Text.Utf8.Fault)
deriving DecidableEq, Repr

namespace LoadError

/-- What is told about the error; `path` is that of the file. -/
def message (path : String) : LoadError → String
  | .inaccessible =>
    "Cannot access " ++ fileName ++ ": " ++ path ++ "\n\nCheck permissions and path state."
  | .notJson cause text =>
    "Failed to load " ++ fileName ++ ": " ++ path ++
      "\n\nEnsure the config file format is valid.\n\nCause: " ++ cause.describe text
  | .notMapping =>
    "Failed to load " ++ fileName ++ ": " ++ path ++
      "\n\nThe top-level value must be an object."
  | .notText fault => fault.message

/-- Whether the error is reported as one of the configuration. Bytes that are no text and numbers
that are too long are not. -/
def isReported : LoadError → Bool
  | .notText _ => false
  | .notJson ⟨.longInteger _, _⟩ _ => false
  | _ => true

end LoadError

/-- The configuration that a text gives. -/
def ofText (text : List Char) : Except LoadError Config :=
  match Json.read text with
  | .ok (.obj members) => .ok ⟨.obj members⟩
  | .ok _ => .error .notMapping
  | .error e => .error (.notJson e text)

/-- The configuration that the bytes of a file give. -/
def ofBytes (bytes : List UInt8) : Except LoadError Config :=
  match Text.Utf8.decode bytes with
  | .ok text => ofText (Text.unifyBreaks text)
  | .error f => .error (.notText f)

end Config

end BlockMarkup
