import BlockMarkup.Proofs.Component.Likeness
import BlockMarkup.Stylesheet.Generate

/-! # What stylesheets show of a tree

Of a node, stylesheets show its class, its kind, its marked attributes, and which other classes it has
in which order (`SameStyles`): names of elements, marks of wrapping and repeated classes leave no
trace. Trees that agree in these things have the same text for every node (`blockBody_congr`), the
same files and the same lines of the index (`rootFiles_congr`, `useLines_congr`).
-/

namespace BlockMarkup

open Component (base Corresponds)

namespace Component

/-- The two nodes look the same in a stylesheet. -/
structure SameStyles (x y : Component) : Prop where
  base : x.base = y.base
  independent : x.independent = y.independent
  isRoot : x.isRoot = y.isRoot
  modifiers : unique x.modifiers = unique y.modifiers
  variants : x.variants = y.variants
  states : x.states = y.states

theorem SameStyles.withRoot {x y : Component} (isRoot : Bool) (h : SameStyles x y) :
    SameStyles (x.withRoot isRoot) (y.withRoot isRoot) := by
  cases x
  cases y
  exact ⟨h.base, h.independent, rfl, h.modifiers, h.variants, h.states⟩

end Component

open Component (SameStyles)

namespace StylesheetWriter

variable {w : StylesheetWriter} {x y : Component}

/-! ## Selectors -/

/-- Which classes become variants and which become states is asked of every class alone. -/
theorem splitModifiers_eq (w : StylesheetWriter) :
    ∃ p q : String → Bool, ∀ ms, w.splitModifiers ms = (ms.filter p, ms.filter q) := by
  let token (t : String) : Bool :=
    w.options.naming.modifierMatches t && !w.options.external.covers t
  have hnone : ∀ ms : List String, [] = ms.filter fun _ => false := by simp
  cases hv : w.policy.variant.mode with
  | byData =>
    cases hs : w.policy.state.mode with
    | byData =>
      refine ⟨fun _ => false, fun _ => false, fun ms => ?_⟩
      rw [splitModifiers, hv, hs, ← hnone]
    | byClass =>
      refine ⟨fun _ => false, token, fun ms => ?_⟩
      rw [splitModifiers, hv, hs, ← hnone]
      rfl
  | byClass =>
    refine ⟨token, fun _ => false, fun ms => ?_⟩
    rw [splitModifiers, hv, ← hnone]
    rfl

/-- Selectors of classes, with or without repeated classes. -/
theorem unique_selectors_congr {ms ms' : List String} (h : unique ms = unique ms')
    (p : String → Bool) (f : String → String) :
    unique ((ms.filter p).map f) = unique ((ms'.filter p).map f) := by
  have hselect : ∀ ms : List String, unique ((ms.filter p).map f) =
      unique ((unique ms).filterMap fun m => if p m then some (f m) else none) := by
    intro ms
    rw [unique_filterMap_unique, ← List.filterMap_eq_map, List.filterMap_filter]
    rfl
  rw [hselect, hselect, h]

theorem variantSelectors_congr (h : SameStyles x y) :
    w.variantSelectors x = w.variantSelectors y := by
  rcases w.splitModifiers_eq with ⟨p, q, hsplit⟩
  rw [variantSelectors, variantSelectors, hsplit, hsplit, h.variants]
  dsimp only
  rw [← unique_append_unique, unique_selectors_congr h.modifiers p, unique_append_unique]

theorem stateSelectors_congr (h : SameStyles x y) : w.stateSelectors x = w.stateSelectors y := by
  rcases w.splitModifiers_eq with ⟨p, q, hsplit⟩
  rw [stateSelectors, stateSelectors, hsplit, hsplit, h.states]
  dsimp only
  rw [← unique_append_unique, unique_selectors_congr h.modifiers q, unique_append_unique]

/-! ## The recursions of the writer -/

theorem statesOfElements_eq (path : List String) (xs : List Component) :
    w.statesOfElements path xs = xs.flatMap (w.statesOfElement path) := by
  induction xs with
  | nil => rfl
  | cons x rest ih => rw [statesOfElements, ih, List.flatMap_cons]

theorem statesOfElement_eq (path : List String) (x : Component) :
    w.statesOfElement path x =
      if x.independent then []
      else (if (w.stateSelectors x).isEmpty then []
          else [⟨path ++ [x.base], w.stateSelectors x⟩]) ++
        x.ordered.flatMap (w.statesOfElement (path ++ [x.base])) := by
  cases x
  rw [statesOfElement, statesOfElements_eq]
  rfl

/-- The lines for one child. -/
def childBlockLines (w : StylesheetWriter) (level : Nat) (fromRoot : Bool) (x : Component) :
    List String :=
  if x.independent then w.childLines level fromRoot x.base
  else [opening level ("> ." ++ x.base), w.blockBody (level + 1) false x, closing level, ""]

theorem childrenLines_eq (level : Nat) (fromRoot : Bool) (xs : List Component) :
    w.childrenLines level fromRoot xs = xs.flatMap (w.childBlockLines level fromRoot) := by
  induction xs with
  | nil => rfl
  | cons x rest ih =>
    rw [childrenLines, ih, List.flatMap_cons]
    rfl

/-- The inside of a rule, with the children as a list. -/
theorem blockBody_eq (level : Nat) (asRoot : Bool) (x : Component) :
    w.blockBody level asRoot x =
      joinLines ((if asRoot && x.ordered.any (·.independent) then
          [line level ("@include meta.load-css(\"" ++ w.options.childDir ++ "\");"), ""]
        else []) ++ w.layoutLines level x.independent ++
        (w.variantSelectors x).flatMap (w.variantLines level) ++
        x.ordered.flatMap (w.childBlockLines level x.isRoot) ++
        if x.independent then w.sectionLines level x else []) := by
  cases x
  rw [blockBody, childrenLines_eq]
  rfl

/-! ## Texts -/

theorem statesOfElement_congr (h : Corresponds SameStyles x y) (path : List String) :
    w.statesOfElement path x = w.statesOfElement path y := by
  induction h generalizing path with
  | mk here bases children ih =>
    rw [statesOfElement_eq, statesOfElement_eq, here.independent, here.base,
      stateSelectors_congr here,
      Component.flatMap_eq_of_bases bases fun u hu v hv hclass => ih u hu v hv hclass _]

theorem elementStates_congr (h : Corresponds SameStyles x y) :
    w.elementStates x = w.elementStates y := by
  cases h with
  | mk here bases children =>
    rw [elementStates, elementStates, statesOfElements_eq, statesOfElements_eq]
    exact Component.flatMap_eq_of_bases bases fun u hu v hv hclass =>
      statesOfElement_congr (children u hu v hv hclass) []

theorem sectionLines_congr (h : Corresponds SameStyles x y) (level : Nat) :
    w.sectionLines level x = w.sectionLines level y := by
  rw [sectionLines, sectionLines, stateSelectors_congr h.here, elementStates_congr h]

/-- The text of a node, from its own looks and the texts of its children. -/
theorem blockBody_congr (h : Corresponds SameStyles x y) (level : Nat) (asRoot : Bool) :
    w.blockBody level asRoot x = w.blockBody level asRoot y := by
  induction h generalizing level asRoot with
  | @mk x y here bases children ih =>
    have hchildren : x.ordered.flatMap (w.childBlockLines level x.isRoot) =
        y.ordered.flatMap (w.childBlockLines level y.isRoot) := by
      rw [here.isRoot]
      refine Component.flatMap_eq_of_bases bases fun u hu v hv hclass => ?_
      rw [childBlockLines, childBlockLines, hclass, ih u hu v hv hclass,
        (children u hu v hv hclass).here.independent]
    have hblocks : x.ordered.any (·.independent) = y.ordered.any (·.independent) := by
      have hkinds := Component.map_eq_of_forall₂ (g := Component.independent)
        (Component.forall₂_of_bases bases fun u hu v hv hclass =>
          (children u hu v hv hclass).here.independent)
      simpa [List.any_map] using congrArg (List.any · id) hkinds
    rw [blockBody_eq, blockBody_eq, hchildren, hblocks, here.independent,
      variantSelectors_congr here, sectionLines_congr (.mk here bases children)]

/-- The file of a node, below parents that are of the same class and both roots or not. -/
theorem fileContent_congr (h : Corresponds SameStyles x y) {parent parent' : Option Component}
    (hparent : parent.map (fun z => (z.base, z.isRoot)) = parent'.map fun z => (z.base, z.isRoot))
    (hint : String) (rootFile : Option String) :
    w.fileContent x parent hint rootFile = w.fileContent y parent' hint rootFile := by
  have hlink : ∀ file, w.parentLink parent file = w.parentLink parent' file := by
    intro file
    cases parent with
    | none =>
      cases parent' with
      | none => rfl
      | some _ => cases hparent
    | some z =>
      cases parent' with
      | none => cases hparent
      | some z' =>
        rcases Prod.mk.inj (Option.some.inj hparent) with ⟨hbase, hroot⟩
        cases file with
        | none => rw [parentLink, parentLink, hbase, hroot]
        | some _ => rfl
  rw [fileContent, fileContent, header, header, hlink, h.here.isRoot, h.here.base,
    blockBody_congr h]

/-! ## Files -/

variable {c : Conventions} {xs ys : List Component}

theorem childFiles_congr {rootFile : String} {parent parent' : Component}
    (h : List.Forall₂ (fun u v =>
      w.childFilesOf rootFile parent u = w.childFilesOf rootFile parent' v) xs ys) :
    w.childFiles rootFile parent xs = w.childFiles rootFile parent' ys := by
  induction h with
  | nil => rfl
  | cons hfirst _ ih => rw [childFiles, childFiles, hfirst, ih]

theorem childFilesOf_congr (h : Corresponds SameStyles x y) (hx : c.TreeCoherent x)
    (hy : c.TreeCoherent y) (rootFile : String) {parent parent' : Component}
    (hparent : SameStyles parent parent') :
    w.childFilesOf rootFile parent x = w.childFilesOf rootFile parent' y := by
  induction h generalizing parent parent' with
  | @mk x y here bases children ih =>
    have hbelow : w.childFiles rootFile x x.independents =
        w.childFiles rootFile y y.independents :=
      childFiles_congr (Component.forall₂_children hx.root hy.root bases
        fun u hu v hv hclass => ⟨(children u hu v hv hclass).here.independent,
          ih u hu v hv hclass (hx.child hu) (hy.child hv) here⟩).2
    have hparents : (some parent).map (fun z => (z.base, z.isRoot)) =
        (some parent').map fun z => (z.base, z.isRoot) := by
      rw [Option.map_some, Option.map_some, hparent.base, hparent.isRoot]
    have hown := fileContent_congr (w := w) (.mk here bases children) hparents ""
      (if parent.isRoot then some rootFile else none)
    have hbase := here.base
    rw [hparent.isRoot] at hown
    cases x
    cases y
    simp only [Component.base, Component.independents] at hbase hbelow
    rw [childFilesOf, childFilesOf, hparent.isRoot, hown, hbelow, hbase]

theorem indexEntries_congr
    (h : List.Forall₂ (fun u v => w.indexEntriesOf u = w.indexEntriesOf v) xs ys) :
    w.indexEntries xs = w.indexEntries ys := by
  induction h with
  | nil => rfl
  | cons hfirst _ ih => rw [indexEntries, indexEntries, hfirst, ih]

theorem indexEntriesOf_congr (h : Corresponds SameStyles x y) (hx : c.TreeCoherent x)
    (hy : c.TreeCoherent y) : w.indexEntriesOf x = w.indexEntriesOf y := by
  induction h with
  | @mk x y here bases children ih =>
    have hbelow : w.indexEntries x.independents = w.indexEntries y.independents :=
      indexEntries_congr (Component.forall₂_children hx.root hy.root bases
        fun u hu v hv hclass => ⟨(children u hu v hv hclass).here.independent,
          ih u hu v hv hclass (hx.child hu) (hy.child hv)⟩).2
    have hbase := here.base
    cases x
    cases y
    simp only [Component.base, Component.independents] at hbase hbelow
    rw [indexEntriesOf, indexEntriesOf, hbelow, hbase]

/-- The files of a root and of the Blocks below it. -/
theorem rootFiles_congr (h : Corresponds SameStyles x y) (hx : c.TreeCoherent x)
    (hy : c.TreeCoherent y) (mode : Markup.RootMode) : w.rootFiles mode x = w.rootFiles mode y := by
  have hown : ∀ hint, w.fileContent x none hint none = w.fileContent y none hint none :=
    fun hint => fileContent_congr h rfl hint none
  have hbelow : ∀ file, w.childFiles file x x.independents = w.childFiles file y y.independents := by
    intro file
    cases h with
    | mk here bases children =>
      exact childFiles_congr (Component.forall₂_children hx.root hy.root bases
        fun u hu v hv hclass => ⟨(children u hu v hv hclass).here.independent,
          childFilesOf_congr (children u hu v hv hclass) (hx.child hu) (hy.child hv) file here⟩).2
  unfold rootFiles
  cases mode with
  | root => simp only [h.here.base, hown, hbelow]
  | selection => simp only [h.here.base, hown, hbelow]

/-- The lines of the index that a root gives rise to. -/
theorem useLines_congr (h : Corresponds SameStyles x y) (hx : c.TreeCoherent x)
    (hy : c.TreeCoherent y) (mode : Markup.RootMode) : w.useLines mode x = w.useLines mode y := by
  have hbelow : w.indexEntries x.independents = w.indexEntries y.independents := by
    cases h with
    | mk here bases children =>
      exact indexEntries_congr (Component.forall₂_children hx.root hy.root bases
        fun u hu v hv hclass => ⟨(children u hu v hv hclass).here.independent,
          indexEntriesOf_congr (children u hu v hv hclass) (hx.child hu) (hy.child hv)⟩).2
  unfold useLines
  cases mode with
  | root => simp only [hbelow]
  | selection => simp only [hbelow, h.here.base]

/-- Elements whose trees correspond have the same files. -/
theorem filesFor_congr {n n' : Markup.Node} {t t' : Component}
    (hbuild : w.conventions.build 0 n = some t) (hbuild' : w.conventions.build 0 n' = some t')
    (h : Corresponds SameStyles t t') (mode : Markup.RootMode) :
    w.filesFor mode (w.rootTrees mode [n]) = w.filesFor mode (w.rootTrees mode [n']) := by
  have hmarked : ∀ isRoot m u, w.conventions.build 0 m = some u →
      w.conventions.TreeCoherent (u.withRoot isRoot) :=
    fun isRoot m u hu => (Conventions.treeCoherent_of_build 0 m u hu).withRoot isRoot
  -- one tree at most, marked as the mode says
  have hone : ∀ m u, w.conventions.build 0 m = some u →
      w.rootTrees mode [m] = if u.independent then [u.withRoot (mode == .root)] else [] := by
    intro m u hu
    have htrees : w.blockTrees [m] = if u.independent then [u] else [] := by
      rw [blockTrees, List.filterMap_cons_some hu, List.filterMap_nil, List.filter_singleton]
      cases u.independent <;> rfl
    cases mode with
    | root =>
      rw [rootTrees, htrees]
      cases u.independent <;> rfl
    | selection =>
      rw [rootTrees, htrees]
      cases u.independent <;> rfl
  rw [hone n t hbuild, hone n' t' hbuild', h.here.independent]
  split
  · have hroots := h.withRoot (mode == .root) fun _ _ hxy => hxy.withRoot (mode == .root)
    have hx := hmarked (mode == .root) n t hbuild
    have hy := hmarked (mode == .root) n' t' hbuild'
    rw [filesFor, filesFor, List.flatMap_singleton, List.flatMap_singleton, List.flatMap_singleton,
      List.flatMap_singleton, rootFiles_congr hroots hx hy, useLines_congr hroots hx hy]
  · rfl

end StylesheetWriter

end BlockMarkup
