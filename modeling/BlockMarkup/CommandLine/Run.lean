import BlockMarkup.CommandLine.Command
import BlockMarkup.CommandLine.Report
import BlockMarkup.Config.Options
import BlockMarkup.Files.Host
import BlockMarkup.Lint.Run
import BlockMarkup.Log.Level
import BlockMarkup.Stylesheet.Index

/-! # Running commands

What the commands do on a machine. An error either ends a command with a message and an exit code,
or stops the program.
-/

namespace BlockMarkup.CommandLine

open Markup (RootMode Document)

/-- Why a command cannot do its work. -/
inductive CommandError where
  | config (path : String) (e : Config.LoadError)
  | configFile (e : FileError)
  | generation (e : GenerationError)
  | policy (e : PolicyError)
  | file (e : FileError)
  | notText (f : Text.Utf8.Fault)
  | pattern (e : Regex.ReadError)
  | markup (e : Markup.MarkupError)
deriving DecidableEq, Repr

namespace CommandError

/-- Whether the error is told to the user, who then gets an exit code. All others stop the
program. -/
def isReported : CommandError → Bool
  | .config _ e => e.isReported
  | .generation _ | .policy _ | .file _ => true
  | _ => false

/-- What is told about the error. -/
def message : CommandError → String
  | .config path e => e.message path
  | .configFile e => e.message
  | .generation e => e.message
  | .policy e => e.message
  | .file e => "Error: " ++ e.message
  | .notText f => f.message
  | .pattern .countTooLarge => "the repetition number is too large"
  | .pattern .flagsConflict => "ASCII and UNICODE flags are incompatible"
  | .pattern .malformed => "malformed pattern"
  | .markup e => e.message

end CommandError

/-- The number that tells how a command ended: 0 for success, 1 for failure, 2 for wrong
arguments. -/
abbrev ExitCode := Nat

variable {m : Type → Type} [Monad m] [Host m]

/-- What commands do on a machine. -/
abbrev Action (m : Type → Type) := ExceptT CommandError m

/-! ## Files and messages -/

/-- Turns a failure into an error of a command. -/
def orFail {ε α : Type} (wrap : ε → CommandError) (r : Except ε α) : Action m α :=
  ExceptT.mk (pure (r.mapError wrap))

/-- Does something with files. -/
def onFiles {α : Type} (x : Action m (Except FileError α)) : Action m α := do
  orFail .file (← x)

/-- Writes a line to where results go. -/
def printLine (s : String) : Action m Unit := Host.print (s ++ "\n")

/-- Writes a line to where messages go. -/
def reportLine (s : String) : Action m Unit := Host.report (s ++ "\n")

/-- Tells something if the log level asks for it. -/
def log (shown level : Log.Level) (s : String) : Action m Unit :=
  if shown.shows level then reportLine s else pure ()

/-- The text of bytes. -/
def textOf (bytes : List UInt8) : Action m (List Char) :=
  orFail .notText ((Text.Utf8.decode bytes).map Text.unifyBreaks)

/-- Reads the text of a file. -/
def readText (p : Path) : Action m (List Char) := do
  textOf (← onFiles (Host.read p))

/-- Reads the text that is given to the command. -/
def readInput : Action m (List Char) := do
  textOf (← Host.input)

/-- Writes a text to a file. -/
def writeText (p : Path) (s : List Char) : Action m Unit :=
  onFiles (Host.write p (Text.Utf8.encode s))

/-- The absolute path that an argument gives. -/
def resolved (argument : String) : Action m Path :=
  return (← Host.workingDirectory).resolve (.ofString argument)

/-! ## Lint -/

/-- Lints a text under the policy as configured. -/
def lintText (level : Log.Level) (naming : NamingOptions)
    (selectorPolicy : Option (List (String × Json))) (external : ExternalOptions)
    (mode : RootMode) (html : List Char) : Action m (List Issue) := do
  let policy ← orFail .policy (SelectorPolicy.fromConfig (.ofOption (selectorPolicy.map .obj)))
  let d := Document.read mode html
  d.warnings.forM (log level Log.Level.warning)
  orFail .pattern (Lint.documentIssues ⟨naming, policy, external⟩ d)

/-- Tells about the warnings that the naming rules give rise to. -/
def logNamingWarnings (level : Log.Level) (config : Config) : Action m Unit := do
  (← orFail .pattern config.namingWarnings).forM (log level Log.Level.warning)

/-- Reads one source of a lint command: a file, or the text that is given to the command. -/
def readSource : Option String → Action m (Option Path × List Char)
  | none => return (none, ← readInput)
  | some file => do
    let path ← resolved file
    return (some path, ← readText path)

/-- Lints one source, and tells whether it has no issue. Among several ones, the path is told before
the issues. -/
def lintSource (c : LintCommand) (options : LintOptions) (level : Log.Level) (several : Bool)
    (source : Option String) : Action m (Json × Bool) := do
  let (path, html) ← readSource source
  let issues ← lintText level options.naming options.selectorPolicy options.external c.mode html
  if !c.json && !issues.isEmpty then
    if several then
      reportLine (((path.map Path.text).getD "None") ++ ":")
      issues.forM fun i => reportLine ("  " ++ issueLine .error i)
    else issues.forM fun i => reportLine (issueLine .error i)
  return (lintReport (path.map Path.text) c.mode issues, issues.isEmpty)

/-- The sources of a lint command. -/
def LintCommand.sources (c : LintCommand) : List (Option String) :=
  if c.stdin then [none] else c.files.map some

/-- Checks the structure of markup. -/
def runLint (c : LintCommand) (config : Config) (level : Log.Level) : Action m ExitCode := do
  logNamingWarnings level config
  let options ← orFail .pattern config.lintOptions
  match c.sources with
  | [] =>
    reportLine noInput
    return 1
  | sources =>
    let results ← sources.mapM (lintSource c options level (sources.length > 1))
    let clean := results.all Prod.snd
    if c.json then
      match results with
      | [(report, _)] => printLine report.render
      | _ => printLine (Json.arr (results.map Prod.fst)).render
    else if clean then printLine noIssues
    return if clean then 0 else 1

/-! ## Generate -/

/-- The directory that stylesheets are written to. -/
def documentDirectory (c : GenerateCommand) (file : Option Path) : Action m Path :=
  match c.baseDir, file with
  | some directory, _ => resolved directory
  | none, some path => return path.parent
  | none, none => Host.workingDirectory

/-- Merges lines into the index of a directory; an index that is not there has no lines yet. -/
def mergeIndex (directory : Path) (uses : List (List Char)) : Action m Unit := do
  let path := directory.join (.ofString StylesheetIndex.fileName)
  let existing ←
    if (← onFiles (Host.kind? path)).isSome then readText path else pure []
  writeText path (StylesheetIndex.merge existing uses)

/-- Writes generated files. The index of child Blocks keeps the lines that it has already. -/
def writeFiles (level : Log.Level) (childDir : String) (directory : Path)
    (files : List GeneratedFile) : Action m Unit := do
  let childDirectory := directory.join (.ofString childDir)
  onFiles (Host.makeDirectories childDirectory)
  let (indexes, sheets) := files.partition (·.path = childDir ++ "/index.scss")
  sheets.forM fun f => do
    let path := directory.join (.ofString f.path)
    onFiles (Host.makeDirectories path.parent)
    writeText path f.content.toList
    log level Log.Level.info ("Wrote " ++ path.text)
  let uses := indexes.flatMap fun f => StylesheetIndex.usesIn f.content.toList
  if !uses.isEmpty then mergeIndex childDirectory uses

/-- Generates stylesheets for markup. -/
def runGenerate (c : GenerateCommand) (config : Config) (level : Log.Level) :
    Action m ExitCode := do
  logNamingWarnings level config
  let options ← orFail .pattern config.stylesheetOptions
  if !c.stdin && c.file.isNone then
    reportLine noInput
    return 1
  let (file, html) ← readSource (if c.stdin then none else c.file)
  let directory ← documentDirectory c file
  let issues ← lintText level options.naming options.selectorPolicy options.external c.mode html
  if !issues.isEmpty && !c.ignoreStructureErrors then
    issues.forM fun i => reportLine (issueLine .error i)
    return 1
  issues.forM fun i => reportLine (issueLine .ignored i)
  let writer ← orFail .policy (StylesheetWriter.ofOptions options)
  let d := Document.read c.mode html
  d.warnings.forM (log level Log.Level.warning)
  let files ← orFail .generation (writer.generateFor d)
  if c.json then printLine (generateReport c.mode directory.text files).render
  else if c.dryRun then
    files.forM fun f => printLine (directory.join (.ofString f.path)).text
  else writeFiles level options.childDir directory files
  return 0

/-! ## Format -/

/-- Writes formatted markup to a file, unless it holds just that already. -/
def writeFormatted (output : String) (markup : List Char) : Action m Unit := do
  let path := Path.ofString output
  let same ←
    if (← onFiles (Host.kind? path)).isSome then pure ((← readText path) == markup)
    else pure false
  if same then reportLine noChanges
  else
    writeText path markup
    reportLine ("Formatted HTML written to: " ++ path.text)

/-- Formats markup with placeholders. -/
def runFormat (c : FormatCommand) (config : Config) (level : Log.Level) : Action m ExitCode := do
  match c.stdin, c.file with
  | false, none =>
    reportLine noInput
    return 1
  | stdin, file =>
    if let (false, some name) := (stdin, file) then
      if (← onFiles (Host.kind? (.ofString name))).isNone then
        reportLine ("Error: File not found: " ++ name)
        return 1
    logNamingWarnings level config
    let options ← orFail .pattern config.formatOptions
    let (_, html) ← readSource (if stdin then none else file)
    let outcome ← orFail .markup (options.format html)
    if outcome.isTemplate then reportLine templateSkipped
    match c.output with
    | none => Host.print (String.ofList (outcome.result html))
    | some output => if !outcome.isTemplate then writeFormatted output (outcome.result html)
    return 0

/-! ## The program -/

/-- Runs a command. -/
def runCommand (c : Command) (config : Config) (level : Log.Level) : Action m ExitCode :=
  match c with
  | .lint c => runLint c config level
  | .generate c => runGenerate c config level
  | .format c => runFormat c config level

/-- Reads the configuration at a path; a file that is not there sets nothing. -/
def loadConfig (path : Path) : Action m Config := do
  match ← (orFail .configFile (← Host.kind? path) : Action m (Option FileKind)) with
  | none => return {}
  | some .directory => throw (.config path.text .inaccessible)
  | some .file =>
    match ← Host.read path with
    | .error _ => throw (.config path.text .inaccessible)
    | .ok bytes => orFail (.config path.text) (Config.ofBytes bytes)

/-- The log level: that of the arguments, or else that of the configuration. -/
def logLevel (i : Invocation) (config : Config) : Log.Level :=
  .ofJson Log.Level.warning
    (((i.logLevel.map Json.str).orElse fun _ => config.setting? ["debug", "level"]).getD .null)

/-- Does what is asked for. -/
def runInvocation (i : Invocation) : Action m ExitCode :=
  match i.command with
  | none => do
    printLine helpText
    return 1
  | some command => do
    let config ← loadConfig (← resolved (i.config.getD Config.fileName))
    runCommand command config (logLevel i config)

/-- Tells about errors that are meant for the user. -/
def reportErrors (x : Action m ExitCode) : Action m ExitCode :=
  tryCatch x fun e =>
    if e.isReported then do
      reportLine e.message
      return 1
    else throw e

/-- Runs the program with its arguments. -/
def run (arguments : List String) : Action m ExitCode := do
  if arguments.isEmpty || ["help", "-h", "--help"].contains (arguments.headD "") then
    printLine helpText
    return 0
  match Invocation.ofArguments arguments with
  | .error .help =>
    printLine helpText
    return 0
  | .error (.usage program e) =>
    reportLine (program ++ ": error: " ++ e.message)
    return 2
  | .ok i => reportErrors (runInvocation i)

end BlockMarkup.CommandLine
