import BlockMarkup.CommandLine.Run

/-! # The program

Runs commands on the machine that the program itself runs on.
-/

namespace BlockMarkup

/-- The fault behind an error of the machine. -/
def FileFault.ofError (e : IO.Error) : FileFault :=
  match e with
  | .noFileOrDirectory .. => .notFound
  | .alreadyExists .. => .alreadyThere
  | .permissionDenied .. => .other 13 "Permission denied"
  | .inappropriateType _ code _ | .invalidArgument _ code _ =>
    match code.toNat with
    | 20 => .notDirectory
    | 21 => .isDirectory
    | 36 => .nameTooLong
    | n => .other n (toString e)
  | e => .other 5 (toString e)

/-- Does something with the file at a path. -/
def withFile {α : Type} (p : Path) (action : IO α) : IO (Except FileError α) := do
  try
    return .ok (← action)
  catch e =>
    return .error ⟨.ofError e, p⟩

instance : Host IO where
  workingDirectory := return .ofString (← IO.currentDir).toString
  kind? p := do
    let place := (← IO.currentDir) / p.text
    if ← place.isDir then return .ok (some .directory)
    else if ← place.pathExists then return .ok (some .file)
    else return .ok none
  read p := withFile p do
    return (← IO.FS.readBinFile p.text).toList
  write p bytes := withFile p (IO.FS.writeBinFile p.text ⟨bytes.toArray⟩)
  makeDirectory p := withFile p (IO.FS.createDir p.text)
  input := do return (← (← IO.getStdin).readToEnd).toUTF8.toList
  print s := IO.print s
  report s := IO.eprint s

end BlockMarkup

/-- Runs the program and ends with its exit code. Errors that are not meant for the user stop it. -/
def main (arguments : List String) : IO UInt32 := do
  let action : BlockMarkup.CommandLine.Action IO BlockMarkup.CommandLine.ExitCode :=
    BlockMarkup.CommandLine.run arguments
  match ← action.run with
  | .ok code => return code.toUInt32
  | .error e =>
    IO.eprintln e.message
    return 1
