import BlockMarkup.Files.Host

/-! # A machine in memory

Files and directories as a list of entries, and a machine that has nothing else. Main statement:
what has been put at a place is found there.
-/

namespace BlockMarkup

/-- What stands at a place. -/
inductive DiskEntry where
  | directory
  | file (bytes : List UInt8)
deriving DecidableEq, Repr

/-- The entries of a disk, each at the names that lead to it from the root. -/
structure Disk where
  entries : List (List String × DiskEntry) := []

namespace Disk

/-- What stands at a place; the root is always a directory. -/
def find? (d : Disk) (place : List String) : Option DiskEntry :=
  if place = [] then some .directory else d.entries.lookup place

/-- Puts something at a place. -/
def put (d : Disk) (place : List String) (e : DiskEntry) : Disk :=
  ⟨(place, e) :: d.entries.filter (·.1 != place)⟩

/-- The most bytes that a name can have. -/
def maxNameLength : Nat := 255

/-- The place that some names lead to. All places on the way have to be directories. -/
def locate (d : Disk) : List String → List String → Except FileFault (List String)
  | place, [] => .ok place
  | place, name :: rest =>
    match d.find? place with
    | none => .error .notFound
    | some (.file _) => .error .notDirectory
    | some .directory =>
      if name.utf8ByteSize > maxNameLength then .error .nameTooLong
      else locate d (Path.step place name) rest

/-- The content of a file. -/
def read (d : Disk) (names : List String) : Except FileFault (List UInt8) := do
  match d.find? (← d.locate [] names) with
  | none => throw .notFound
  | some .directory => throw .isDirectory
  | some (.file bytes) => return bytes

/-- The disk with new content in a file. -/
def write (d : Disk) (names : List String) (bytes : List UInt8) : Except FileFault Disk := do
  let place ← d.locate [] names
  match d.find? place with
  | some .directory => throw .isDirectory
  | _ => return d.put place (.file bytes)

/-- The disk with a new directory. -/
def makeDirectory (d : Disk) (names : List String) : Except FileFault Disk := do
  let place ← d.locate [] names
  match d.find? place with
  | some _ => throw .alreadyThere
  | none => return d.put place .directory

/-- What some names lead to. -/
def kind? (d : Disk) (names : List String) : Except FileFault (Option FileKind) :=
  match d.locate [] names with
  | .error .nameTooLong => .error .nameTooLong
  | .error _ => .ok none
  | .ok place =>
    .ok ((d.find? place).map fun
      | .directory => .directory
      | .file _ => .file)

/-- What has been put at a place is found there. -/
theorem find?_put (d : Disk) (place : List String) (e : DiskEntry) (h : place ≠ []) :
    (d.put place e).find? place = some e := by
  simp [put, find?, h]

end Disk

/-- A machine in memory. -/
structure Machine where
  disk : Disk := {}
  directory : List String := []
  input : List UInt8 := []
  printed : String := ""
  reported : String := ""

namespace Machine

/-- The names that lead to a path from the root. -/
def namesOf (s : Machine) (p : Path) : List String :=
  if p.absolute then p.names else s.directory ++ p.names

/-- An outcome on the disk, with the path it is about. -/
def onPath {α : Type} (p : Path) (r : Except FileFault α) : Except FileError α :=
  r.mapError (⟨·, p⟩)

/-- Changes the disk if that is possible. -/
def update (p : Path) (change : Disk → List String → Except FileFault Disk) :
    StateM Machine (Except FileError Unit) := do
  let s ← get
  match change s.disk (s.namesOf p) with
  | .error e => return .error ⟨e, p⟩
  | .ok disk =>
    set { s with disk }
    return .ok ()

instance : Host (StateM Machine) where
  workingDirectory := return ⟨true, (← get).directory⟩
  kind? p := do
    let s ← get
    return onPath p (s.disk.kind? (s.namesOf p))
  read p := do
    let s ← get
    return onPath p (s.disk.read (s.namesOf p))
  write p bytes := update p fun d names => d.write names bytes
  makeDirectory p := update p Disk.makeDirectory
  input := return (← get).input
  print text := modify fun s => { s with printed := s.printed ++ text }
  report text := modify fun s => { s with reported := s.reported ++ text }

end Machine

end BlockMarkup
