import BlockMarkup.Text.Quoted
import BlockMarkup.Text.WordChar

/-! # Arguments

The options of the commands, and how the arguments of a command are sorted into options, their
values and operands.
-/

namespace BlockMarkup.CommandLine

/-- The options. -/
inductive Switch where
  | help
  | config
  | logLevel
  | root
  | selection
  | stdin
  | json
  | baseDir
  | dryRun
  | ignoreStructureErrors
  | output
deriving DecidableEq, Repr

namespace Switch

/-- The spellings of an option. -/
def spellings : Switch → List String
  | .help => ["-h", "--help"]
  | .config => ["--config"]
  | .logLevel => ["--log-level"]
  | .root => ["--root"]
  | .selection => ["--selection"]
  | .stdin => ["--stdin"]
  | .json => ["--json"]
  | .baseDir => ["--base-dir"]
  | .dryRun => ["--dry-run"]
  | .ignoreStructureErrors => ["--ignore-structure-errors"]
  | .output => ["-o", "--output"]

/-- The name of an option in messages. -/
def name (s : Switch) : String := "/".intercalate s.spellings

/-- Whether an option has a value. -/
def takesValue : Switch → Bool
  | .config | .logLevel | .baseDir | .output => true
  | _ => false

/-- The option that must not stand beside an option. -/
def rival? : Switch → Option Switch
  | .root => some .selection
  | .selection => some .root
  | _ => none

end Switch

/-- What is wrong with arguments. -/
inductive ArgumentError where
  | ambiguous (argument : String) (spellings : List String)
  | expectedValue (s : Switch)
  | ignoredValue (s : Switch) (value : String)
  | notBeside (s other : Switch)
  | unknownCommand (command : String) (known : List String)
  | unrecognized (arguments : List String)
deriving DecidableEq, Repr

namespace ArgumentError

/-- A text in quotes. -/
def inQuotes (s : String) : String := String.ofList (Text.quoted s.toList)

/-- What is told about the error. -/
def message : ArgumentError → String
  | .ambiguous a spellings =>
    "ambiguous option: " ++ a ++ " could match " ++ ", ".intercalate spellings
  | .expectedValue s => "argument " ++ s.name ++ ": expected one argument"
  | .ignoredValue s v =>
    "argument " ++ s.name ++ ": ignored explicit argument " ++ inQuotes v
  | .notBeside s other =>
    "argument " ++ s.name ++ ": not allowed with argument " ++ other.name
  | .unknownCommand c known =>
    "argument command: invalid choice: " ++ inQuotes c ++ " (choose from " ++
      ", ".intercalate (known.map inQuotes) ++ ")"
  | .unrecognized as => "unrecognized arguments: " ++ " ".intercalate as

end ArgumentError

/-- What an argument is. -/
inductive ArgumentKind where
  | switch (s : Switch) (value : Option String)
  | unknownSwitch
  | operand
  /-- Two hyphens: all arguments after them are operands. -/
  | separator
deriving DecidableEq, Repr

/-- An argument and what it is. -/
structure Argument where
  text : String
  kind : ArgumentKind
deriving DecidableEq, Repr

/-- A spelling of an option, and the value that an argument gives it. -/
structure Candidate where
  spelling : String
  switch : Switch
  value : Option String

namespace Argument

/-- Cuts a text at the first equals sign. -/
def atEquals? (s : List Char) : Option (List Char × List Char) :=
  match s.dropWhile (· != '=') with
  | _ :: value => some (s.takeWhile (· != '='), value)
  | [] => none

/-- All spellings of some options. -/
def spellingsOf (switches : List Switch) : List (String × Switch) :=
  switches.flatMap fun s => s.spellings.map (·, s)

/-- The option with a given spelling. -/
def ofSpelling? (switches : List Switch) (s : List Char) : Option Switch :=
  (spellingsOf switches).lookup (String.ofList s)

/-- The options that an argument can mean. Long ones may be cut short and may have a value behind
an equals sign; a short one may have a value right behind it. -/
def candidates (switches : List Switch) (s : List Char) : List Candidate :=
  match s with
  | '-' :: '-' :: _ =>
    let (start, value) :=
      match atEquals? s with
      | some (start, value) => (start, some (String.ofList value))
      | none => (s, none)
    (spellingsOf switches).filterMap fun (spelling, switch) =>
      if start.isPrefixOf spelling.toList then some ⟨spelling, switch, value⟩ else none
  | _ =>
    (spellingsOf switches).filterMap fun (spelling, switch) =>
      if spelling.toList = s.take 2 then
        some ⟨spelling, switch, some (String.ofList (s.drop 2))⟩
      else if s.isPrefixOf spelling.toList then some ⟨spelling, switch, none⟩
      else none

/-- Whether a text is a negative number: digits behind a hyphen, or a point with digits after it
and possibly before it. A line break may follow. -/
def isNegativeNumber (s : List Char) : Bool :=
  let digits (t : List Char) : Bool := !t.isEmpty && t.all Text.isDecimalDigit
  let body := match s.drop 1 |>.reverse with
    | '\n' :: rest => rest.reverse
    | t => t.reverse
  s.head? = some '-' &&
    (digits body ||
      ((body.takeWhile (· != '.')).all Text.isDecimalDigit &&
        digits ((body.dropWhile (· != '.')).drop 1)))

/-- What an argument is, if it stands before all separators. -/
def kindOf (switches : List Switch) (text : String) : Except ArgumentError ArgumentKind :=
  let s := text.toList
  match s with
  | '-' :: _ :: _ =>
    match ofSpelling? switches s with
    | some switch => .ok (.switch switch none)
    | none =>
      let assigned? := (atEquals? s).bind fun (start, value) =>
        (ofSpelling? switches start).map fun switch => (switch, String.ofList value)
      match assigned?, candidates switches s with
      | some (switch, value), _ => .ok (.switch switch (some value))
      | none, [c] => .ok (.switch c.switch c.value)
      | none, [] => .ok (if isNegativeNumber s || s.contains ' ' then .operand else .unknownSwitch)
      | none, cs => .error (.ambiguous text (cs.map Candidate.spelling))
  | _ => .ok .operand

/-- Tells what each of some arguments is. -/
def classify (switches : List Switch) : List String → Except ArgumentError (List Argument)
  | [] => .ok []
  | text :: rest =>
    if text = "--" then .ok (⟨text, .separator⟩ :: rest.map (⟨·, .operand⟩))
    else do
      let kind ← kindOf switches text
      return ⟨text, kind⟩ :: (← classify switches rest)

end Argument

/-- How many operands a command has. -/
inductive Operands where
  | atMostOne
  | many
  /-- The first operand is a command, and all that follows are its arguments. -/
  | command
deriving DecidableEq, Repr

/-- The arguments that a command has. -/
structure Grammar where
  switches : List Switch
  operands : Operands

/-- How far the operands are read. Operands stand together; later ones are not recognized. -/
inductive OperandState where
  | pending
  | reading (full : Bool)
  | closed
deriving DecidableEq, Repr

/-- Sorted arguments. -/
structure Sorted where
  switches : List (Switch × Option String) := []
  operands : List String := []
  state : OperandState := .pending
  unrecognized : List String := []
  /-- A command and its arguments. -/
  command : Option (String × List String) := none

namespace Sorted

/-- Ends the operands if they have begun. -/
def closeOperands (p : Sorted) : Sorted :=
  match p.state with
  | .reading _ => { p with state := .closed }
  | _ => p

/-- Whether an option has been given. -/
def has (p : Sorted) (s : Switch) : Bool := p.switches.any (·.1 = s)

/-- The last value of an option; an empty one counts as none. -/
def value? (p : Sorted) (s : Switch) : Option String :=
  ((p.switches.reverse.lookup s).join).filter (· != "")

/-- Adds an option. -/
def addSwitch (p : Sorted) (s : Switch) (value : Option String) : Except ArgumentError Sorted :=
  match s.rival? with
  | some other =>
    if p.has other then .error (.notBeside s other)
    else .ok { p.closeOperands with switches := p.switches ++ [(s, value)] }
  | none => .ok { p.closeOperands with switches := p.switches ++ [(s, value)] }

/-- Adds an argument that has no place. -/
def addUnrecognized (p : Sorted) (text : String) : Sorted :=
  { p.closeOperands with unrecognized := p.unrecognized ++ [text] }

/-- Adds an operand. -/
def addOperand (g : Operands) (p : Sorted) (text : String) : Sorted :=
  match p.state with
  | .closed | .reading true => p.addUnrecognized text
  | _ => { p with operands := p.operands ++ [text], state := .reading (g = .atMostOne) }

/-- Adds a separator. -/
def addSeparator (p : Sorted) (text : String) : Sorted :=
  match p.state with
  | .closed => p.addUnrecognized text
  | .pending => { p with state := .reading false }
  | .reading _ => p

/-- Sorts arguments, one after the other. An option that asks for help ends that. -/
def addAll (g : Operands) : List Argument → Sorted → Except ArgumentError Sorted
  | [], p => .ok p
  | ⟨text, kind⟩ :: rest, p =>
    match kind, g with
    | .unknownSwitch, _ => addAll g rest (p.addUnrecognized text)
    | .operand, .command => .ok { p with command := some (text, rest.map Argument.text) }
    | .separator, .command =>
      if rest.isEmpty then .ok (p.addUnrecognized text)
      else .ok { p with command := some (text, rest.map Argument.text) }
    | .operand, _ => addAll g rest (addOperand g p text)
    | .separator, _ => addAll g rest (p.addSeparator text)
    | .switch .help none, _ => p.addSwitch .help none
    | .switch s value, _ =>
      match s.takesValue, value with
      | false, some v => .error (.ignoredValue s v)
      | false, none => (p.addSwitch s none).bind (addAll g rest)
      | true, some v => (p.addSwitch s (some v)).bind (addAll g rest)
      | true, none =>
        match rest with
        | ⟨v, .operand⟩ :: rest => (p.addSwitch s (some v)).bind (addAll g rest)
        | _ => .error (.expectedValue s)

/-- Sorts the arguments of a command. -/
def ofArguments (g : Grammar) (arguments : List String) : Except ArgumentError Sorted := do
  addAll g.operands (← Argument.classify g.switches arguments) {}

end Sorted

end BlockMarkup.CommandLine
