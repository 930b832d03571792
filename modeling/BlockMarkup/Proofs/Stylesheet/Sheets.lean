import BlockMarkup.Proofs.Component.Marks
import BlockMarkup.Proofs.Stylesheet.Paths

/-! # Stylesheets before they are written

What is known of every stylesheet when it is written: the classes on the way to its Block, the
Block, and the Block above it. The files of a tree are its sheets, written (`rootFiles_eq`), one
for every Block that Blocks lead to (`rootSheets_places`), and every sheet but the first one has the
sheet of the Block above it among the others (`mem_rootSheets`).
-/

namespace BlockMarkup

open Markup (Node RootMode Document)
open Component (base blockPaths blockPathsIn)

/-- What a stylesheet is written from: the classes on the way to the Block, the Block, the Block
above it, the entry file of the page, and the base of the root file if that is the file of the
Block above. -/
structure Sheet where
  chain : List String
  node : Component
  parent : Option Component
  hint : String
  rootFile : Option String

namespace Sheet

/-- The Block and the way to it. -/
def place (s : Sheet) : List String × Component := (s.chain, s.node)

/-- The sheet is that of a Block below the Block of another one. -/
structure Below (s q : Sheet) : Prop where
  chain : s.chain = q.chain ++ [s.node.base]
  parent : s.parent = some q.node
  node : s.node ∈ q.node.independents

end Sheet

namespace StylesheetWriter

variable {w : StylesheetWriter} {mode : RootMode}

/-- The file that is written for a sheet. -/
def fileOf (w : StylesheetWriter) (mode : RootMode) (s : Sheet) : GeneratedFile :=
  ⟨w.filePath mode s.chain, w.fileContent s.node s.parent s.hint s.rootFile⟩

mutual

/-- The sheets of a Block and of the Blocks below it. -/
def childSheetsOf (rootFile : String) (above : List String) (parent : Component) :
    Component → List Sheet
  | .mk b i m v s n independents o t r d =>
    let c : Component := .mk b i m v s n independents o t r d
    ⟨above ++ [b], c, some parent, "", if parent.isRoot then some rootFile else none⟩ ::
      childSheets rootFile (above ++ [b]) c independents

/-- The sheets of some child Blocks and of the Blocks below them. -/
def childSheets (rootFile : String) (above : List String) (parent : Component) :
    List Component → List Sheet
  | [] => []
  | c :: rest => childSheetsOf rootFile above parent c ++ childSheets rootFile above parent rest

end

/-- The sheet of a root. -/
def rootSheet (mode : RootMode) (tree : Component) : Sheet where
  chain := [tree.base]
  node := tree
  parent := none
  hint := match mode with
    | .root => "index.scss"
    | .selection => "page-entry.scss"
  rootFile := none

/-- The sheets of a root and of the Blocks below it. -/
def rootSheets (w : StylesheetWriter) (mode : RootMode) (tree : Component) : List Sheet :=
  rootSheet mode tree :: childSheets (w.rootFile tree.base) [tree.base] tree tree.independents

/-- The sheets of a document. -/
def sheets (w : StylesheetWriter) (mode : RootMode) (html : List Char) : List Sheet :=
  match selectRoots (Document.read mode html) with
  | .error _ => []
  | .ok roots => (w.rootTrees mode roots).flatMap (w.rootSheets mode)

/-! ## Sheets and files -/

mutual

theorem childFilesOf_eq (rootFile : String) (parent : Component) (above : List String)
    (h : above ≠ []) : ∀ x : Component,
      w.childFilesOf rootFile parent x =
        (childSheetsOf rootFile above parent x).map (w.fileOf mode)
  | .mk b i m v s n independents o t r d => by
    rw [childFilesOf, childSheetsOf, List.map_cons, fileOf, filePath_concat h,
      childFiles_eq rootFile _ (above ++ [b]) (by simp) independents]

theorem childFiles_eq (rootFile : String) (parent : Component) (above : List String)
    (h : above ≠ []) : ∀ xs : List Component,
      w.childFiles rootFile parent xs =
        (childSheets rootFile above parent xs).map (w.fileOf mode)
  | [] => rfl
  | x :: rest => by
    rw [childFiles, childSheets, List.map_append, childFilesOf_eq rootFile parent above h x,
      childFiles_eq rootFile parent above h rest]

end

/-- The files of a root are its sheets, written. -/
theorem rootFiles_eq (x : Component) :
    w.rootFiles mode x = (w.rootSheets mode x).map (w.fileOf mode) := by
  rw [rootSheets, List.map_cons, ← childFiles_eq _ _ _ (by simp)]
  cases mode with
  | root => rfl
  | selection => rfl

theorem flatMap_rootFiles_eq (xs : List Component) :
    xs.flatMap (w.rootFiles mode) = (xs.flatMap (w.rootSheets mode)).map (w.fileOf mode) := by
  rw [List.map_flatMap]
  exact List.flatMap_congr fun x _ => rootFiles_eq x

/-! ## Sheets and Blocks -/

mutual

theorem childSheetsOf_places (rootFile : String) (above : List String) (parent : Component) :
    ∀ x : Component, (childSheetsOf rootFile above parent x).map Sheet.place =
      x.blockPaths.map fun p => (above ++ p.1, p.2)
  | .mk b i m v s n independents o t r d => by
    rw [childSheetsOf, blockPaths, List.map_cons, List.map_cons, List.map_map,
      childSheets_places rootFile (above ++ [b]) _ independents]
    simp [Sheet.place, Function.comp_def]

theorem childSheets_places (rootFile : String) (above : List String) (parent : Component) :
    ∀ xs : List Component, (childSheets rootFile above parent xs).map Sheet.place =
      (blockPathsIn xs).map fun p => (above ++ p.1, p.2)
  | [] => rfl
  | x :: rest => by
    rw [childSheets, blockPathsIn, List.map_append, List.map_append,
      childSheetsOf_places rootFile above parent x, childSheets_places rootFile above parent rest]

end

/-- There is one sheet for every Block that Blocks lead to. -/
theorem rootSheets_places (x : Component) :
    (w.rootSheets mode x).map Sheet.place = x.blockPaths := by
  rw [rootSheets, List.map_cons, childSheets_places, Component.blockPaths_def]
  rfl

theorem flatMap_rootSheets_places (xs : List Component) :
    (xs.flatMap (w.rootSheets mode)).map Sheet.place = blockPathsIn xs := by
  induction xs with
  | nil => rfl
  | cons x rest ih =>
    rw [List.flatMap_cons, List.map_append, rootSheets_places, ih]
    rfl

/-! ## The sheet of the Block above -/

mutual

theorem mem_childSheetsOf {s : Sheet} (rootFile : String) (above : List String)
    (parent : Component) : ∀ x : Component, s ∈ childSheetsOf rootFile above parent x →
      (s.chain = above ++ [s.node.base] ∧ s.parent = some parent ∧ s.node = x ∧
          s.rootFile = if parent.isRoot then some rootFile else none) ∨
        ∃ q ∈ childSheetsOf rootFile above parent x, s.Below q ∧
          s.rootFile = if q.node.isRoot then some rootFile else none
  | .mk b i m v s n independents o t r d => by
    intro hs
    rw [childSheetsOf] at hs ⊢
    rcases List.mem_cons.mp hs with rfl | hs
    · exact Or.inl ⟨rfl, rfl, rfl, rfl⟩
    · right
      rcases mem_childSheets rootFile (above ++ [b]) _ independents hs with
        ⟨hchain, hparent, hnode, hfile⟩ | ⟨q, hq, hbelow, hfile⟩
      · exact ⟨_, List.mem_cons_self, ⟨hchain, hparent, hnode⟩, hfile⟩
      · exact ⟨q, List.mem_cons_of_mem _ hq, hbelow, hfile⟩

theorem mem_childSheets {s : Sheet} (rootFile : String) (above : List String)
    (parent : Component) : ∀ xs : List Component, s ∈ childSheets rootFile above parent xs →
      (s.chain = above ++ [s.node.base] ∧ s.parent = some parent ∧ s.node ∈ xs ∧
          s.rootFile = if parent.isRoot then some rootFile else none) ∨
        ∃ q ∈ childSheets rootFile above parent xs, s.Below q ∧
          s.rootFile = if q.node.isRoot then some rootFile else none
  | [] => by simp [childSheets]
  | x :: rest => by
    intro hs
    rw [childSheets] at hs ⊢
    rcases List.mem_append.mp hs with hs | hs
    · rcases mem_childSheetsOf rootFile above parent x hs with
        ⟨hchain, hparent, rfl, hfile⟩ | ⟨q, hq, hbelow, hfile⟩
      · exact Or.inl ⟨hchain, hparent, List.mem_cons_self, hfile⟩
      · exact Or.inr ⟨q, List.mem_append_left _ hq, hbelow, hfile⟩
    · rcases mem_childSheets rootFile above parent rest hs with
        ⟨hchain, hparent, hnode, hfile⟩ | ⟨q, hq, hbelow, hfile⟩
      · exact Or.inl ⟨hchain, hparent, List.mem_cons_of_mem _ hnode, hfile⟩
      · exact Or.inr ⟨q, List.mem_append_right _ hq, hbelow, hfile⟩

end

/-- A sheet is that of the root, or there is the sheet of the Block above. -/
theorem mem_rootSheets {x : Component} {s : Sheet} (hs : s ∈ w.rootSheets mode x) :
    s = rootSheet mode x ∨ ∃ q ∈ w.rootSheets mode x, s.Below q ∧
      s.rootFile = if q.node.isRoot then some (w.rootFile x.base) else none := by
  rw [rootSheets] at hs ⊢
  rcases List.mem_cons.mp hs with rfl | hs
  · exact Or.inl rfl
  · right
    rcases mem_childSheets _ _ _ _ hs with ⟨hchain, hparent, hnode, hfile⟩ | ⟨q, hq, hbelow, hfile⟩
    · exact ⟨_, List.mem_cons_self, ⟨hchain, hparent, hnode⟩, hfile⟩
    · exact ⟨q, List.mem_cons_of_mem _ hq, hbelow, hfile⟩

/-! ## The sheets of a document -/

variable {roots : List Node} {t : Component} {s : Sheet}

/-- Of the trees that files are generated for, the root alone may be marked, and is for a page. -/
theorem rootTrees_marks (ht : t ∈ w.rootTrees mode roots) :
    (t.isRoot = true ↔ mode = .root) ∧ ∀ y ∈ t.ordered, y.Unmarked := by
  have hbuilt : ∀ t ∈ w.blockTrees roots, t.Unmarked := by
    intro t ht
    rcases mem_blockTrees.mp ht with ⟨⟨n, _, hn⟩, _⟩
    exact Conventions.unmarked_of_build 0 n t hn
  cases mode with
  | root =>
    rcases List.mem_map.mp ht with ⟨u, hu, rfl⟩
    have hbelow := (Component.unmarked_iff.mp (hbuilt u hu)).2
    cases u
    exact ⟨⟨fun _ => rfl, fun _ => rfl⟩, hbelow⟩
  | selection =>
    have hmarks : t.Unmarked := by
      refine Component.unmarked_dedup (c := w.conventions) ?_ ?_ t ht
      · intro x hx
        rcases List.mem_map.mp hx with ⟨u, hu, rfl⟩
        exact (hbuilt u hu).withRoot
      · intro x hx
        rcases List.mem_map.mp hx with ⟨u, hu, rfl⟩
        exact (blockTrees_coherent u hu).withRoot false
    rcases Component.unmarked_iff.mp hmarks with ⟨hroot, hbelow⟩
    exact ⟨by simp [hroot], hbelow⟩

/-- What is known of the sheets of a root tree. -/
structure SheetOf (w : StylesheetWriter) (mode : RootMode) (t : Component) (s : Sheet) :
    Prop where
  mem_paths : s.place ∈ t.paths
  blocks : w.conventions.AllBlocks s.chain
  last : s.chain.getLast? = some s.node.base
  coherent : w.conventions.TreeCoherent s.node
  isRoot : s.node.isRoot = true ↔ mode = .root ∧ s.chain.length = 1
  below : ∀ y ∈ s.node.ordered, y.Unmarked

theorem sheetOf_of_mem (ht : t ∈ w.rootTrees mode roots) (hs : s ∈ w.rootSheets mode t) :
    w.SheetOf mode t s := by
  rcases rootTrees_spec t ht with ⟨hcoherent, hblock⟩
  rcases rootTrees_marks ht with ⟨hroot, hmarks⟩
  have hplace : s.place ∈ t.blockPaths := by
    rw [← rootSheets_places]
    exact List.mem_map_of_mem hs
  rw [Conventions.blockPaths_eq hcoherent hblock] at hplace
  rcases List.mem_filter.mp hplace with ⟨hpath, hall⟩
  rcases hcoherent.of_mem_paths s.place hpath with ⟨hlast, hnode⟩
  rcases Component.mem_paths.mp hpath with he | ⟨y, hy, q, hq, he⟩
  · -- the root itself
    rcases Prod.mk.inj he with ⟨hchain, rfl⟩
    refine ⟨hpath, of_decide_eq_true hall, hlast, hnode, ?_, hmarks⟩
    rw [hroot, hchain]
    simp
  · -- a node below the root, which is no page and has a longer chain
    rcases Prod.mk.inj he with ⟨hchain, hq2⟩
    have hunmarked := (hmarks y hy).of_mem_paths (hcoherent.child hy) q hq
    rw [hq2] at hunmarked
    rcases Component.unmarked_iff.mp hunmarked with ⟨hunmarked, hbelow⟩
    refine ⟨hpath, of_decide_eq_true hall, hlast, hnode, ?_, hbelow⟩
    have hhead := Component.head?_of_mem_paths hq
    have hlength : s.chain.length ≠ 1 := by
      intro hlength
      rw [← hchain, List.length_cons] at hlength
      have hnil : q.1 = [] := List.length_eq_zero_iff.mp (by omega)
      simp [hnil] at hhead
    simp [hunmarked, hlength]

theorem SheetOf.length_pos (h : w.SheetOf mode t s) : 0 < s.chain.length := by
  refine List.length_pos_of_ne_nil fun hnil => ?_
  have hlast := h.last
  simp [hnil] at hlast

/-- The chain of a root is its class. -/
theorem SheetOf.chain_of_length_one (h : w.SheetOf mode t s) (hlength : s.chain.length = 1) :
    s.chain = [s.node.base] := by
  rcases List.length_eq_one_iff.mp hlength with ⟨b, hb⟩
  have hlast := h.last
  rw [hb] at hlast ⊢
  exact congrArg (fun b => [b]) (Option.some.inj hlast)

end StylesheetWriter

end BlockMarkup
