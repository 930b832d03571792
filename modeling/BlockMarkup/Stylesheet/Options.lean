import BlockMarkup.Component.Build
import BlockMarkup.Naming.FileName

/-! # Stylesheet options

The settings for the generation of stylesheets, and how they are read. Unlike naming options,
settings of the wrong type are refused.
-/

namespace BlockMarkup

/-- The settings for the generation of stylesheets. -/
structure StylesheetOptions where
  globalModule : String := "@styles/partials/global"
  pageEntryPrefix : String := "@assets/css"
  childDir : String := "scss"
  layoutMixins : List String := ["@include breakpoint-up(md)"]
  naming : NamingOptions := {}
  rootFileCase : FileCase := .preserve
  childFileCase : FileCase := .preserve
  /-- The selector policy as configured. -/
  selectorPolicy : Option (List (String × Json)) := none
  external : ExternalOptions := {}

/-- What a setting has to be. -/
inductive ExpectedType where
  | text
  | list
deriving DecidableEq, Repr

/-- A setting, or an item of one, that is not what it has to be. -/
structure SettingError where
  key : String
  index : Option Nat
  expected : ExpectedType
deriving DecidableEq, Repr

/-- Why options are refused. -/
inductive OptionsError where
  | notMapping
  | settings (errors : List SettingError)
  | pattern (e : Regex.ReadError)
deriving DecidableEq, Repr

namespace ExpectedType

/-- What is told about a setting that is something else. -/
def message : ExpectedType → String
  | .text => "Input should be a valid string"
  | .list => "Input should be a valid list"

end ExpectedType

namespace StylesheetOptions

/-- A setting and the key it stands under; of two keys the first one wins. -/
def setting? (members : List (String × Json)) (key other : String) : Option (String × Json) :=
  match Json.member? key members with
  | some v => some (key, v)
  | none => (Json.member? other members).map (other, ·)

/-- Reads a text. -/
def readText (default : String) : Option (String × Json) → Except (List SettingError) String
  | none => .ok default
  | some (_, .str s) => .ok s
  | some (key, _) => .error [⟨key, none, .text⟩]

/-- The items of a list that are no texts. -/
def badItems (key : String) : Nat → List Json → List SettingError
  | _, [] => []
  | n, .str _ :: rest => badItems key (n + 1) rest
  | n, _ :: rest => ⟨key, some n, .text⟩ :: badItems key (n + 1) rest

/-- Reads a list of texts. -/
def readTexts (default : List String) :
    Option (String × Json) → Except (List SettingError) (List String)
  | none => .ok default
  | some (key, .arr items) =>
    match badItems key 0 items with
    | [] => .ok (items.filterMap Json.str?)
    | errors => .error errors
  | some (key, _) => .error [⟨key, none, .list⟩]

/-- The errors of a reading. -/
def errorsOf {α : Type} : Except (List SettingError) α → List SettingError
  | .ok _ => []
  | .error es => es

/-- The options that a configured value gives. -/
def fromConfig (raw : Json) : Except OptionsError StylesheetOptions :=
  match raw with
  | .obj members => do
    let setting := setting? members
    let value (key other : String) : Json := .ofOption ((setting key other).map Prod.snd)
    let default : StylesheetOptions := {}
    let naming ←
      match NamingOptions.fromConfig (.ofOption (Json.member? "naming" members)) with
      | .ok n => pure n
      | .error e => throw (.pattern e)
    let globalModule := readText default.globalModule (setting "globalScssModule" "global_scss_module")
    let pageEntryPrefix := readText default.pageEntryPrefix (setting "pageEntryPrefix" "page_entry_prefix")
    let childDir := readText default.childDir (setting "childScssDir" "child_scss_dir")
    let layoutMixins := readTexts default.layoutMixins (setting "layoutMixins" "layout_mixins")
    match globalModule, pageEntryPrefix, childDir, layoutMixins with
    | .ok globalModule, .ok pageEntryPrefix, .ok childDir, .ok layoutMixins =>
      return {
        globalModule, pageEntryPrefix, childDir, layoutMixins, naming
        rootFileCase := .ofJson (value "rootFileCase" "root_file_case")
        childFileCase := .ofJson (value "childFileCase" "child_file_case")
        selectorPolicy := (value "selectorPolicy" "selector_policy").members?
        external := .fromConfig (.ofOption (Json.member? "external" members)) }
    | _, _, _, _ =>
      throw (.settings (errorsOf globalModule ++ errorsOf pageEntryPrefix ++ errorsOf childDir ++
        errorsOf layoutMixins))
  | _ => .error .notMapping

/-- The conventions that the options set. -/
def conventions (o : StylesheetOptions) : Except PolicyError Conventions :=
  (SelectorPolicy.fromConfig (.ofOption (o.selectorPolicy.map .obj))).map fun p =>
    ⟨o.naming, p, o.external⟩

end StylesheetOptions

end BlockMarkup
