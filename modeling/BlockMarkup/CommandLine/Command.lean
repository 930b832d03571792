import BlockMarkup.CommandLine.Argument
import BlockMarkup.Markup.Document

/-! # Commands

The commands of the program with their settings, and how they are read from arguments.
-/

namespace BlockMarkup.CommandLine

open Markup (RootMode)

/-- Checks the structure of markup. -/
structure LintCommand where
  mode : RootMode
  stdin : Bool
  json : Bool
  files : List String
deriving DecidableEq, Repr

/-- Generates stylesheets for markup. -/
structure GenerateCommand where
  mode : RootMode
  stdin : Bool
  json : Bool
  dryRun : Bool
  ignoreStructureErrors : Bool
  baseDir : Option String
  file : Option String
deriving DecidableEq, Repr

/-- Formats markup with placeholders. -/
structure FormatCommand where
  stdin : Bool
  output : Option String
  file : Option String
deriving DecidableEq, Repr

/-- A command. -/
inductive Command where
  | lint (c : LintCommand)
  | generate (c : GenerateCommand)
  | format (c : FormatCommand)
deriving DecidableEq, Repr

/-- What the program is asked to do: a command, if there is one, and the settings that all commands
have. -/
structure Invocation where
  config : Option String := none
  logLevel : Option String := none
  command : Option Command := none
deriving DecidableEq, Repr

/-- Why arguments lead to no invocation. -/
inductive Refusal where
  /-- The arguments ask for help. -/
  | help
  /-- The arguments of a program are wrong. -/
  | usage (program : String) (e : ArgumentError)
deriving DecidableEq, Repr

/-- The name of the program. -/
def programName : String := "spiracss"

/-- The kinds of commands. -/
inductive CommandKind where
  | lint
  | generate
  | format
deriving DecidableEq, Repr

namespace CommandKind

/-- All kinds of commands. -/
def all : List CommandKind := [.lint, .generate, .format]

/-- The name of a kind of command. -/
def name : CommandKind → String
  | .lint => "lint"
  | .generate => "generate"
  | .format => "format"

/-- The kind of a given name. -/
def ofName? (s : String) : Option CommandKind := all.find? (·.name = s)

/-- The arguments that a command has. -/
def grammar : CommandKind → Grammar
  | .lint => ⟨[.help, .root, .selection, .stdin, .json], .many⟩
  | .generate =>
    ⟨[.help, .root, .selection, .stdin, .baseDir, .dryRun, .json, .ignoreStructureErrors],
      .atMostOne⟩
  | .format => ⟨[.help, .stdin, .output], .atMostOne⟩

/-- The mode that is asked for. -/
def modeOf (p : Sorted) : RootMode := if p.has .selection then .selection else .root

/-- The only operand; an empty one counts as none. -/
def fileOf (p : Sorted) : Option String := p.operands.head?.filter (· != "")

/-- The command that sorted arguments give. -/
def build (p : Sorted) : CommandKind → Command
  | .lint => .lint ⟨modeOf p, p.has .stdin, p.has .json, p.operands⟩
  | .generate =>
    .generate ⟨modeOf p, p.has .stdin, p.has .json, p.has .dryRun, p.has .ignoreStructureErrors,
      p.value? .baseDir, fileOf p⟩
  | .format => .format ⟨p.has .stdin, p.value? .output, fileOf p⟩

end CommandKind

namespace Invocation

/-- The arguments that the program has itself. -/
def grammar : Grammar := ⟨[.help, .config, .logLevel], .command⟩

/-- Sorts arguments on behalf of a program. -/
def sort (program : String) (g : Grammar) (arguments : List String) : Except Refusal Sorted :=
  match Sorted.ofArguments g arguments with
  | .error e => .error (.usage program e)
  | .ok p => if p.has .help then .error .help else .ok p

/-- Refuses arguments that have no place. -/
def recognized (arguments : List String) : Except Refusal Unit :=
  if arguments.isEmpty then .ok () else .error (.usage programName (.unrecognized arguments))

/-- The command of a given name with its arguments, and those that have no place. -/
def readCommand (name : String) (arguments : List String) :
    Except Refusal (Command × List String) :=
  match CommandKind.ofName? name with
  | none =>
    .error (.usage programName (.unknownCommand name (CommandKind.all.map CommandKind.name)))
  | some kind =>
    (sort (programName ++ " " ++ name) kind.grammar arguments).map fun p =>
      (kind.build p, p.unrecognized)

/-- What arguments ask for. -/
def ofArguments (arguments : List String) : Except Refusal Invocation := do
  let p ← sort programName grammar arguments
  match p.command with
  | none =>
    recognized p.unrecognized
    return ⟨p.value? .config, p.value? .logLevel, none⟩
  | some (name, rest) =>
    let (command, unrecognized) ← readCommand name rest
    recognized (p.unrecognized ++ unrecognized)
    return ⟨p.value? .config, p.value? .logLevel, some command⟩

end Invocation

end BlockMarkup.CommandLine
