import BlockMarkup.Json.Printer
import BlockMarkup.Lint.Issue
import BlockMarkup.Markup.Document
import BlockMarkup.Stylesheet.Generate

/-! # Reports

The texts in which commands tell what they have found or made.
-/

namespace BlockMarkup.CommandLine

open Markup (RootMode)

/-- What the program tells about itself. -/
def helpText : String :=
"spiracss lint [--root | --selection] [--json] (--stdin | <file>...)
                      Checks markup against the SpiraCSS Block > Element structure.

  spiracss generate [--root | --selection] [--base-dir <dir>] [--dry-run] [--json]
                    [--ignore-structure-errors] (--stdin | <file>)
                      Generates SCSS scaffolding next to the markup (or in --base-dir).

  spiracss format [--stdin | <file>] [-o <path>]
                      Inserts placeholder classes into static markup.

  Global options: --config <path> (default: ./spiracss.config.json), --log-level <level>"

/-- A command without anything to work on. -/
def noInput : String := "Error: No input specified. Use --help for usage."

/-- Lint without any issue. -/
def noIssues : String := "No SpiraCSS HTML structure errors."

/-- Formatting without any change to its output. -/
def noChanges : String := "No changes needed."

/-- Formatting of a template. -/
def templateSkipped : String :=
  "Warning: Template syntax (EJS, Nunjucks, JSX, etc.) was detected, so processing was skipped.\n" ++
    "Use this only with static HTML fragments."

/-- How grave issues are. -/
inductive Gravity where
  | error
  /-- Issues that do not keep stylesheets from being generated. -/
  | ignored
deriving DecidableEq, Repr

/-- The line about an issue. -/
def issueLine (g : Gravity) (i : Issue) : String :=
  let text := " [" ++ i.code.name ++ "] at " ++ i.location ++ ": " ++ i.message
  match g with
  | .error => "ERROR" ++ text
  | .ignored => "WARN" ++ text ++ " (ignored)"

/-- The word for a mode. -/
def modeName : RootMode → String
  | .root => "root"
  | .selection => "selection"

/-- A list of texts. -/
def textList (xs : List String) : Json := .arr (xs.map .str)

/-- An issue in a report. -/
def issueReport (i : Issue) : Json :=
  .obj [("code", .str i.code.name), ("message", .str i.message), ("baseClass", .str i.base),
    ("path", textList i.path)]

/-- The issues of a file, or of the text that was given to the command, in a report. -/
def lintReport (file : Option String) (mode : RootMode) (issues : List Issue) : Json :=
  .obj [("file", .ofOption (file.map .str)), ("mode", .str (modeName mode)),
    ("ok", .bool issues.isEmpty), ("errors", .arr (issues.map issueReport))]

/-- Generated files in a report. -/
def generateReport (mode : RootMode) (directory : String) (files : List GeneratedFile) : Json :=
  .obj [("mode", .str (modeName mode)), ("docDir", .str directory),
    ("files", .arr (files.map fun f => .obj [("path", .str f.path), ("content", .str f.content)]))]

end BlockMarkup.CommandLine
