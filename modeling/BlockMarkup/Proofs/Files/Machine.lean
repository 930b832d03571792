import BlockMarkup.CommandLine.Run
import BlockMarkup.Files.Disk
import BlockMarkup.Proofs.FirstOccurrence
import BlockMarkup.Proofs.Result
import BlockMarkup.Proofs.Text.Utf8

/-! # Files of a machine in memory

What reading and writing a text does to a machine in memory. A text that is written to a file is the text
that is read from it, all other places are left alone (`find?_put_of_ne`), and paths lead where they led
before (`locate_put`), since what was a directory still is one.
-/

namespace BlockMarkup

namespace Disk

variable {d : Disk} {place place' : List String} {names : List String} {name : String}
  {e e' : DiskEntry}

theorem find?_put_of_ne (h : place' ≠ place) : (d.put place e).find? place' = d.find? place' := by
  rw [find?, find?]
  split
  · rfl
  · have hother : (place' == place) = false := by simpa using h
    rw [put, List.lookup_cons, hother]
    exact lookup_filter_ne h d.entries

/-- What is put at a place replaces what has been put there. -/
theorem put_put : (d.put place e).put place e' = d.put place e' := by
  simp [put, List.filter_filter]

/-- A name is looked up in the directory that the names before it lead to. -/
theorem locate_concat (hplace : d.locate place names = .ok place')
    (hdirectory : d.find? place' = some .directory) (hname : name.utf8ByteSize ≤ maxNameLength) :
    d.locate place (names ++ [name]) = .ok (Path.step place' name) := by
  induction names generalizing place with
  | nil =>
    cases hplace
    rw [List.nil_append, locate, hdirectory]
    exact if_neg (Nat.not_lt_of_le hname)
  | cons first names ih =>
    rw [List.cons_append, locate]
    rw [locate] at hplace
    split at hplace
    · cases hplace
    · cases hplace
    · split at hplace
      · cases hplace
      · rename_i hfirst
        rw [if_neg hfirst]
        exact ih hplace

/-- Names lead to the same place after something is put where no directory is. -/
theorem locate_put (h : d.locate place names = .ok place') {target : List String}
    (htarget : d.find? target ≠ some .directory) : (d.put target e).locate place names = .ok place' := by
  induction names generalizing place with
  | nil => exact h
  | cons first names ih =>
    rw [locate] at h ⊢
    split at h
    · cases h
    · cases h
    · rename_i hdirectory
      -- a place on the way is a directory, so it is not the one that is changed
      have hne : place ≠ target := by
        rintro rfl
        exact htarget hdirectory
      rw [find?_put_of_ne hne, hdirectory]
      dsimp only
      split at h
      · cases h
      · rename_i hfirst
        rw [if_neg hfirst]
        exact ih h

end Disk

namespace Machine

open CommandLine

variable {s : Machine} {p : Path} {place : List String} {text text' : List Char}

/-- The machine with a text in a file. -/
def withText (s : Machine) (place : List String) (text : List Char) : Machine :=
  { s with disk := s.disk.put place (.file (Text.Utf8.encode text)) }

theorem withText_withText : (s.withText place text).withText place text' = s.withText place text' := by
  simp only [withText, Disk.put_put]

/-- The path leads to a place for a file, which has a text or nothing at all. -/
structure Holds (s : Machine) (p : Path) (place : List String) (text : Option (List Char)) : Prop where
  ne_nil : place ≠ []
  locate : s.disk.locate [] (s.namesOf p) = .ok place
  find? : s.disk.find? place = text.map fun t => .file (Text.Utf8.encode t)

theorem Holds.withText {old : Option (List Char)} (h : s.Holds p place old) :
    (s.withText place text).Holds p place (some text) where
  ne_nil := h.ne_nil
  locate := by
    show (s.disk.put place (.file (Text.Utf8.encode text))).locate [] (s.namesOf p) = .ok place
    refine Disk.locate_put h.locate ?_
    rw [h.find?]
    cases old <;> simp
  find? := Disk.find?_put _ _ _ h.ne_nil

/-! ## What actions do -/

theorem bind_eq_of_run {α β : Type} {x : Action (StateM Machine) α}
    {f : α → Action (StateM Machine) β} {s s' : Machine} {a : α} (h : x s = (.ok a, s')) :
    (x >>= f) s = f a s' := by
  have hbind : (x >>= f) s = ExceptT.bindCont f (x s).1 (x s).2 := rfl
  rw [hbind, h]
  rfl

theorem run_kind? {text : Option (List Char)} (h : s.Holds p place text) :
    (onFiles (Host.kind? p) : Action (StateM Machine) (Option FileKind)) s =
      (.ok (text.map fun _ => .file), s) := by
  have hkind : s.disk.kind? (s.namesOf p) = .ok (text.map fun _ => .file) := by
    rw [Disk.kind?, h.locate]
    dsimp only
    rw [h.find?]
    cases text <;> rfl
  have hrun : (onFiles (Host.kind? p) : Action (StateM Machine) (Option FileKind)) s =
      (((onPath p (s.disk.kind? (s.namesOf p))).mapError CommandError.file), s) := rfl
  rw [hrun, hkind]
  rfl

theorem run_readText (h : s.Holds p place (some text)) :
    (readText p : Action (StateM Machine) (List Char)) s = (.ok (Text.unifyBreaks text), s) := by
  have hread : s.disk.read (s.namesOf p) = .ok (Text.Utf8.encode text) := by
    refine bind_eq_ok.mpr ⟨place, h.locate, ?_⟩
    rw [h.find?]
    rfl
  have hbytes : (onFiles (Host.read p) : Action (StateM Machine) (List UInt8)) s =
      (.ok (Text.Utf8.encode text), s) := by
    have hrun : (onFiles (Host.read p) : Action (StateM Machine) (List UInt8)) s =
        (((onPath p (s.disk.read (s.namesOf p))).mapError CommandError.file), s) := rfl
    rw [hrun, hread]
    rfl
  rw [readText, bind_eq_of_run hbytes, textOf, Text.Utf8.decode_encode]
  rfl

theorem run_update (change : Disk → List String → Except FileFault Disk) {disk : Disk}
    (h : change s.disk (s.namesOf p) = .ok disk) : update p change s = (.ok (), { s with disk }) := by
  have hget : ∀ k : Machine → StateM Machine (Except FileError Unit), (get >>= k) s = k s s := fun _ => rfl
  unfold update
  rw [hget, h]
  rfl

theorem run_writeText {old : Option (List Char)} (h : s.Holds p place old) :
    (writeText p text : Action (StateM Machine) Unit) s = (.ok (), s.withText place text) := by
  have hwrite : s.disk.write (s.namesOf p) (Text.Utf8.encode text) =
      .ok (s.disk.put place (.file (Text.Utf8.encode text))) := by
    refine bind_eq_ok.mpr ⟨place, h.locate, ?_⟩
    rw [h.find?]
    cases old <;> rfl
  have hupdate := run_update (p := p) (fun d names => d.write names (Text.Utf8.encode text)) hwrite
  have hbytes : (Host.write p (Text.Utf8.encode text) :
      Action (StateM Machine) (Except FileError Unit)) s = (.ok (.ok ()), s.withText place text) := by
    have hrun : (Host.write p (Text.Utf8.encode text) :
        Action (StateM Machine) (Except FileError Unit)) s =
          (.ok (update p (fun d names => d.write names (Text.Utf8.encode text)) s).1,
            (update p (fun d names => d.write names (Text.Utf8.encode text)) s).2) := rfl
    rw [hrun, hupdate]
    rfl
  rw [writeText, onFiles, bind_eq_of_run hbytes]
  rfl

end Machine

end BlockMarkup
