import BlockMarkup.Proofs.Component.BlockPath
import BlockMarkup.Stylesheet.Generate

/-! # Which files are generated

Every Block that is reached through Blocks gives rise to one file, in the order in which the tree
has them (`rootFiles_correspond`); the index of the directory of child Blocks comes last
(`filesFor_paths`). Where the file of a Block stands depends on the classes that lead to it.
-/

namespace BlockMarkup.StylesheetWriter

open Markup (Node RootMode Document)
open Component (base blockPaths blockPathsIn)

variable {w : StylesheetWriter} {mode : RootMode}

/-- The path of the file of a root. -/
def rootPath (w : StylesheetWriter) (mode : RootMode) (b : String) : String :=
  match mode with
  | .root => w.rootFile b ++ ".scss"
  | .selection => w.childPath (w.rootFile b)

/-- The path of the file of a Block to which some classes lead. -/
def filePath (w : StylesheetWriter) (mode : RootMode) (chain : List String) : String :=
  if chain.length ≤ 1 then w.rootPath mode (chain.getLastD "")
  else w.childPath (w.childFile (chain.getLastD ""))

/-- The path of the index. -/
def indexPath (w : StylesheetWriter) : String := w.options.childDir ++ "/index.scss"

/-- The file is that of a node to which some classes lead. -/
def IsFileOf (w : StylesheetWriter) (mode : RootMode) (p : List String × Component)
    (f : GeneratedFile) : Prop :=
  f.path = w.filePath mode p.1 ∧
    ∃ parent hint rootFile, f.content = w.fileContent p.2 parent hint rootFile

theorem filePath_concat {above : List String} (h : above ≠ []) (b : String) :
    w.filePath mode (above ++ [b]) = w.childPath (w.childFile b) := by
  have hpos := List.length_pos_of_ne_nil h
  rw [filePath, if_neg]
  · simp
  · rw [List.length_append, List.length_singleton]
    omega

/-! ## The files of a tree -/

mutual

theorem childFilesOf_correspond (rootFile : String) (parent : Component) (above : List String)
    (h : above ≠ []) : ∀ x : Component,
      List.Forall₂ (fun p f => w.IsFileOf mode (above ++ p.1, p.2) f) x.blockPaths
        (w.childFilesOf rootFile parent x)
  | .mk b i m v s n independents o t r d => by
    rw [childFilesOf, blockPaths]
    refine .cons ⟨?_, _, _, _, rfl⟩ ?_
    · exact (filePath_concat h b).symm
    -- the Blocks below, their chains going through the node
    · rw [List.forall₂_map_left_iff]
      have hbelow := childFiles_correspond rootFile (.mk b i m v s n independents o t r d)
        (above ++ [b]) (by simp) independents
      simpa using hbelow

theorem childFiles_correspond (rootFile : String) (parent : Component) (above : List String)
    (h : above ≠ []) : ∀ xs : List Component,
      List.Forall₂ (fun p f => w.IsFileOf mode (above ++ p.1, p.2) f) (blockPathsIn xs)
        (w.childFiles rootFile parent xs)
  | [] => .nil
  | x :: rest =>
    List.rel_append (childFilesOf_correspond rootFile parent above h x)
      (childFiles_correspond rootFile parent above h rest)

end

/-- The files of a root are those of the Blocks that Blocks lead to, one for each. -/
theorem rootFiles_correspond (x : Component) :
    List.Forall₂ (w.IsFileOf mode) x.blockPaths (w.rootFiles mode x) := by
  have hbelow : List.Forall₂ (fun p f => w.IsFileOf mode ([x.base] ++ p.1, p.2) f)
      (blockPathsIn x.independents) (w.childFiles (w.rootFile x.base) x x.independents) :=
    childFiles_correspond (w.rootFile x.base) x [x.base] (by simp) x.independents
  rw [Component.blockPaths_def]
  cases mode with
  | root => exact .cons ⟨rfl, _, _, _, rfl⟩ ((List.forall₂_map_left_iff).mpr hbelow)
  | selection => exact .cons ⟨rfl, _, _, _, rfl⟩ ((List.forall₂_map_left_iff).mpr hbelow)

theorem forest_correspond (xs : List Component) :
    List.Forall₂ (w.IsFileOf mode) (blockPathsIn xs) (xs.flatMap (w.rootFiles mode)) := by
  induction xs with
  | nil => exact .nil
  | cons x rest ih => exact List.rel_append (rootFiles_correspond x) ih

theorem paths_of_correspond {ps : List (List String × Component)} {fs : List GeneratedFile}
    (h : List.Forall₂ (w.IsFileOf mode) ps fs) :
    fs.map GeneratedFile.path = ps.map fun p => w.filePath mode p.1 := by
  induction h with
  | nil => rfl
  | cons hpf _ ih => rw [List.map_cons, List.map_cons, hpf.1, ih]

theorem exists_of_forall₂ {α β : Type} {R : α → β → Prop} {xs : List α} {ys : List β}
    (h : List.Forall₂ R xs ys) : ∀ x ∈ xs, ∃ y ∈ ys, R x y := by
  induction h with
  | nil => simp
  | cons hxy _ ih =>
    rw [List.forall_mem_cons]
    refine ⟨⟨_, List.mem_cons_self, hxy⟩, fun x hx => ?_⟩
    rcases ih x hx with ⟨y, hy, hxy⟩
    exact ⟨y, List.mem_cons_of_mem _ hy, hxy⟩

/-- A Block that Blocks lead to has a file. -/
theorem exists_file_of_mem {xs : List Component} {p : List String × Component}
    (hp : p ∈ blockPathsIn xs) : ∃ f ∈ w.filesFor mode xs, w.IsFileOf mode p f := by
  rcases exists_of_forall₂ (forest_correspond xs) p hp with ⟨f, hf, hfile⟩
  exact ⟨f, List.mem_append_left _ hf, hfile⟩

/-! ## The index -/

/-- The index has lines. -/
def HasIndex (mode : RootMode) (xs : List Component) : Prop :=
  (mode = .selection ∧ xs ≠ []) ∨ ∃ p ∈ blockPathsIn xs, 1 < p.1.length

instance (mode : RootMode) (xs : List Component) : Decidable (HasIndex mode xs) :=
  inferInstanceAs (Decidable ((mode = .selection ∧ xs ≠ []) ∨ _))

theorem indexEntries_eq_nil {xs : List Component} : w.indexEntries xs = [] ↔ xs = [] := by
  cases xs with
  | nil => simp [indexEntries]
  | cons x rest =>
    cases x
    simp [indexEntries, indexEntriesOf]

/-- A Block with classes above it is a Block below a root. -/
theorem exists_longer_iff (x : Component) :
    (∃ p ∈ x.blockPaths, 1 < p.1.length) ↔ x.independents ≠ [] := by
  rw [Component.blockPaths_def]
  constructor
  · rintro ⟨p, hp, hlen⟩ hnil
    rw [hnil] at hp
    simp [blockPathsIn] at hp
    simp [hp] at hlen
  · intro h
    rcases List.exists_cons_of_ne_nil h with ⟨y, rest, hy⟩
    refine ⟨(x.base :: [y.base], y), ?_, by simp⟩
    rw [hy]
    simp [blockPathsIn, Component.blockPaths_def]

theorem useLines_eq_nil {x : Component} :
    w.useLines mode x = [] ↔ mode = .root ∧ ¬ ∃ p ∈ x.blockPaths, 1 < p.1.length := by
  rw [exists_longer_iff, not_not]
  cases mode with
  | root => simp [useLines, indexEntries_eq_nil]
  | selection => simp [useLines]

theorem flatMap_useLines_eq_nil {xs : List Component} :
    xs.flatMap (w.useLines mode) = [] ↔ ¬ HasIndex mode xs := by
  rw [List.flatMap_eq_nil_iff, HasIndex]
  simp only [useLines_eq_nil, Component.mem_blockPathsIn]
  constructor
  · rintro h (⟨hmode, hne⟩ | ⟨p, ⟨x, hx, hp⟩, hlen⟩)
    · rcases List.exists_cons_of_ne_nil hne with ⟨x, rest, rfl⟩
      have hroot := (h x List.mem_cons_self).1
      rw [hmode] at hroot
      cases hroot
    · exact (h x hx).2 ⟨p, hp, hlen⟩
  · intro h x hx
    rw [not_or] at h
    constructor
    · cases mode with
      | root => rfl
      | selection => exact absurd ⟨rfl, List.ne_nil_of_mem hx⟩ h.1
    · rintro ⟨p, hp, hlen⟩
      exact h.2 ⟨p, ⟨x, hx, hp⟩, hlen⟩

theorem indexFile_paths (xs : List Component) :
    (w.indexFile (unique (xs.flatMap (w.useLines mode)))).map GeneratedFile.path =
      if HasIndex mode xs then [w.indexPath] else [] := by
  by_cases h : HasIndex mode xs
  · -- freed of repetitions, lines are still lines
    have hne : unique (xs.flatMap (w.useLines mode)) ≠ [] := by
      intro hnil
      refine absurd h (flatMap_useLines_eq_nil (w := w).mp ?_)
      refine List.eq_nil_iff_forall_not_mem.mpr fun l hl => ?_
      have := hnil ▸ mem_unique.mpr hl
      simp at this
    rw [if_pos h, indexFile, if_neg (by simpa using hne)]
    rfl
  · rw [if_neg h, flatMap_useLines_eq_nil.mpr h]
    rfl

/-- The paths of all files: those of the Blocks, and that of the index if it has lines. -/
theorem filesFor_paths (xs : List Component) :
    (w.filesFor mode xs).map GeneratedFile.path =
      (blockPathsIn xs).map (fun p => w.filePath mode p.1) ++
        if HasIndex mode xs then [w.indexPath] else [] := by
  rw [filesFor, List.map_append, paths_of_correspond (forest_correspond xs), indexFile_paths]

end BlockMarkup.StylesheetWriter
