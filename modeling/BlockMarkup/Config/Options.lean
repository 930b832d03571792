import BlockMarkup.Config.Basic
import BlockMarkup.Naming.PatternWarning
import BlockMarkup.Placeholder.Format
import BlockMarkup.Stylesheet.Options

/-! # Options from a configuration

What a configuration says about linting, the generation of stylesheets and formatting. Settings
that cannot be used give way to their defaults.
-/

namespace BlockMarkup

/-- The settings for linting. -/
structure LintOptions where
  naming : NamingOptions := {}
  /-- The selector policy as configured. -/
  selectorPolicy : Option (List (String × Json)) := none
  external : ExternalOptions := {}
  /-- The setting that the naming rules come from. -/
  namingSource : String := "stylelint.base.naming"

namespace Config

/-- The sections in which naming rules can stand; the first one that has any counts. -/
def namingSections : List String := ["base", "class", "classStructure"]

/-- The setting that holds the naming rules of a section. -/
def namingPath (sectionName : String) : List String := ["stylelint", sectionName, "naming"]

/-- The section whose naming rules count. -/
def namingSection? (c : Config) : Option String :=
  namingSections.find? fun s => (c.members? (namingPath s)).isSome

/-- The setting that the naming rules come from; that of the first section if there are none. -/
def namingSource (c : Config) : String :=
  ".".intercalate (namingPath (c.namingSection?.getD "base"))

/-- The naming rules as configured. -/
def rawNaming (c : Config) : List (String × Json) :=
  (c.namingSection?.bind fun s => c.members? (namingPath s)).getD []

/-- The warnings about the naming rules. -/
def namingWarnings (c : Config) : Except Regex.ReadError (List String) :=
  (PatternWarning.ofNaming (.obj c.rawNaming)).map fun ws =>
    ws.map (PatternWarning.message c.namingSource)

/-- The naming rules. -/
def naming (c : Config) : Except Regex.ReadError NamingOptions :=
  NamingOptions.fromConfig (.obj c.rawNaming)

/-- Adds a member unless its key is there already. -/
def fillMember (key : String) (v : Option Json) (members : List (String × Json)) :
    List (String × Json) :=
  match v with
  | some v => if (Json.member? key members).isSome then members else Json.setMember key v members
  | none => members

/-- The third-party classes. Settings of the class section replace those of the base section, and
the structure section fills in what both leave open. -/
def external (c : Config) : ExternalOptions :=
  let given (s : String) := (c.members? ["stylelint", s, "external"]).getD []
  let merged := (given "class").foldl (fun ms (k, v) => Json.setMember k v ms) (given "base")
  let structural := (c.members? ["stylelint", "classStructure"]).getD []
  .fromConfig (.obj
    (fillMember "prefixes" (Json.member? "allowExternalPrefixes" structural)
      (fillMember "classes" (Json.member? "allowExternalClasses" structural) merged)))

/-- The selector policy as configured. -/
def selectorPolicy (c : Config) : Option (List (String × Json)) :=
  c.members? ["selectorPolicy"]

/-- The options for linting. -/
def lintOptions (c : Config) : Except Regex.ReadError LintOptions :=
  c.naming.map fun n => ⟨n, c.selectorPolicy, c.external, c.namingSource⟩

/-- A text that is not blank, or else a default. -/
def nonBlank (default : String) (v : Option Json) : String :=
  ((v.bind Json.str?).filter fun s => !Text.allBlank s).getD default

/-- The place that page entries are loaded from: an alias and a directory, if that is not blank. -/
def pageEntryPrefix (members : List (String × Json)) : String :=
  let text (key default : String) : String :=
    ((Json.member? key members).bind Json.str?).getD default
  let directory := text "pageEntrySubdir" "css"
  "@" ++ text "pageEntryAlias" "assets" ++
    (if Text.allBlank directory then "" else "/" ++ directory)

/-- The layout mixins: the texts of a list that are not blank. -/
def layoutMixins (v : Option Json) : List String :=
  match v with
  | some (.arr items) => (items.filterMap Json.str?).filter fun s => !Text.allBlank s
  | _ => ({} : StylesheetOptions).layoutMixins

/-- The options for the generation of stylesheets. -/
def stylesheetOptions (c : Config) : Except Regex.ReadError StylesheetOptions :=
  let members := (c.members? ["generator"]).getD []
  let default : StylesheetOptions := {}
  c.naming.map fun naming => {
    globalModule := nonBlank default.globalModule (Json.member? "globalScssModule" members)
    pageEntryPrefix := pageEntryPrefix members
    childDir := nonBlank default.childDir (Json.member? "childScssDir" members)
    layoutMixins := layoutMixins (Json.member? "layoutMixins" members)
    naming
    rootFileCase := .ofJson (.ofOption (Json.member? "rootFileCase" members))
    childFileCase := .ofJson (.ofOption (Json.member? "childFileCase" members))
    selectorPolicy := c.selectorPolicy
    external := c.external }

/-- The options for formatting. -/
def formatOptions (c : Config) : Except Regex.ReadError FormatOptions :=
  c.naming.map fun n =>
    ⟨n, .ofName (((c.setting? ["htmlFormat", "classAttribute"]).bind Json.str?).getD "")⟩

end Config

end BlockMarkup
