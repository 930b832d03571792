import BlockMarkup.Files.Path
import BlockMarkup.Text.Quoted

/-! # Hosts

What a command needs of the machine that it runs on: files, a text to read and two places to write
to.
-/

namespace BlockMarkup

/-- Why a file cannot be used. -/
inductive FileFault where
  | notFound
  | alreadyThere
  | notDirectory
  | isDirectory
  | nameTooLong
  | other (number : Nat) (description : String)
deriving DecidableEq, Repr

namespace FileFault

/-- The number of the fault. -/
def number : FileFault → Nat
  | .notFound => 2
  | .alreadyThere => 17
  | .notDirectory => 20
  | .isDirectory => 21
  | .nameTooLong => 36
  | .other n _ => n

/-- What is told about the fault. -/
def describe : FileFault → String
  | .notFound => "No such file or directory"
  | .alreadyThere => "File exists"
  | .notDirectory => "Not a directory"
  | .isDirectory => "Is a directory"
  | .nameTooLong => "File name too long"
  | .other _ d => d

end FileFault

/-- A fault and the path on which it occurred. -/
structure FileError where
  fault : FileFault
  path : Path
deriving DecidableEq, Repr

namespace FileError

/-- What is told about the error. -/
def message (e : FileError) : String :=
  "[Errno " ++ toString e.fault.number ++ "] " ++ e.fault.describe ++ ": " ++
    String.ofList (Text.quoted e.path.text.toList)

end FileError

/-- What a path can lead to. -/
inductive FileKind where
  | file
  | directory
deriving DecidableEq, Repr

/-- A machine. Paths that are not absolute start at the working directory. -/
class Host (m : Type → Type) where
  workingDirectory : m Path
  /-- What a path leads to; nothing if a name on it is missing or is no directory. -/
  kind? : Path → m (Except FileError (Option FileKind))
  read : Path → m (Except FileError (List UInt8))
  write : Path → List UInt8 → m (Except FileError Unit)
  makeDirectory : Path → m (Except FileError Unit)
  /-- The text that is given to the command. -/
  input : m (List UInt8)
  /-- Writes to where results go. -/
  print : String → m Unit
  /-- Writes to where messages go. -/
  report : String → m Unit

/-- A machine on which work may end with an error. -/
instance {ε : Type} {m : Type → Type} [Monad m] [Host m] : Host (ExceptT ε m) where
  workingDirectory := ExceptT.lift Host.workingDirectory
  kind? p := ExceptT.lift (Host.kind? p)
  read p := ExceptT.lift (Host.read p)
  write p bytes := ExceptT.lift (Host.write p bytes)
  makeDirectory p := ExceptT.lift (Host.makeDirectory p)
  input := ExceptT.lift Host.input
  print s := ExceptT.lift (Host.print s)
  report s := ExceptT.lift (Host.report s)

namespace Host

variable {m : Type → Type} [Monad m] [Host m]

/-- Whether a path leads to a directory. -/
def isDirectory (p : Path) : m (Except FileError Bool) := do
  return (← kind? p).map (· = some .directory)

/-- The outcome of making a directory, if one that is there already is as good. -/
def orDirectory (p : Path) (e : FileError) : m (Except FileError Unit) := do
  return (← isDirectory p).bind fun found => if found then .ok () else .error e

/-- Makes a directory and those above it, as far as they are missing; `above` are the names of the
path, last one first. -/
def makeDirectoriesFrom (absolute : Bool) : List String → m (Except FileError Unit)
  | [] => do
    let p : Path := ⟨absolute, []⟩
    match ← makeDirectory p with
    | .ok () => return .ok ()
    | .error e => if e.fault = .notFound then return .error e else orDirectory p e
  | name :: above => do
    let p : Path := ⟨absolute, (name :: above).reverse⟩
    match ← makeDirectory p with
    | .ok () => return .ok ()
    | .error e =>
      if e.fault = .notFound then
        match ← makeDirectoriesFrom absolute above with
        | .error e => return .error e
        | .ok () =>
          match ← makeDirectory p with
          | .ok () => return .ok ()
          | .error e => if e.fault = .notFound then return .error e else orDirectory p e
      else orDirectory p e

/-- Makes a directory and those above it, as far as they are missing. -/
def makeDirectories (p : Path) : m (Except FileError Unit) :=
  makeDirectoriesFrom p.absolute p.names.reverse

end Host

end BlockMarkup
