import BlockMarkup.Proofs.Component.Names
import BlockMarkup.Proofs.Stylesheet.Sections

/-! # The section for states

The last section of a file is for the states of the Block and of the Elements that are styled in its
file: those that are reached without passing another Block. What the writer collects for it on the way
down is picked here from all nodes below the Block (`elementGroups`), and the two are the same list
(`elementStates_eq`). `interaction_of_fileContent` says what the section then holds. An Element is any
node that is no Block, whatever its class looks like.
-/

namespace BlockMarkup

namespace Component

/-- The nodes on the way from a node down to another, and that one, are Elements. -/
def ThroughElements (x : Component) (path : List String) : Prop :=
  ∀ q ∈ pathsIn x.ordered, q.1 <+: path → q.2.independent = false

instance (x : Component) (path : List String) : Decidable (x.ThroughElements path) :=
  inferInstanceAs (Decidable (∀ q ∈ pathsIn x.ordered, q.1 <+: path → q.2.independent = false))

end Component

namespace Conventions

variable {c : Conventions}

/-- No class on the way is a Block. -/
def NoBlocks (c : Conventions) (chain : List String) : Prop :=
  ∀ b ∈ chain, c.isIndependent b = false

instance (c : Conventions) (chain : List String) : Decidable (c.NoBlocks chain) :=
  inferInstanceAs (Decidable (∀ b ∈ chain, c.isIndependent b = false))

theorem noBlocks_cons {b : String} {chain : List String} :
    c.NoBlocks (b :: chain) ↔ c.isIndependent b = false ∧ c.NoBlocks chain := by
  simp [NoBlocks]

/-- In a tree that is built the classes on the way say whether it leads through Elements. -/
theorem throughElements_iff {x : Component} (hx : c.TreeCoherent x)
    {p : List String × Component} (hp : p ∈ Component.pathsIn x.ordered) :
    x.ThroughElements p.1 ↔ c.NoBlocks p.1 := by
  constructor
  · intro h b hb
    rcases Component.mem_pathsIn.mp hp with ⟨y, hy, hp⟩
    rcases Component.exists_prefix_of_mem_paths hp hb with ⟨q, hq, hstart, rfl⟩
    rw [← ((hx.child hy).of_mem_paths q hq).2.root.kind]
    exact h q (Component.mem_pathsIn.mpr ⟨y, hy, hq⟩) hstart
  · intro h q hq hstart
    rcases Component.mem_pathsIn.mp hq with ⟨y, hy, hq⟩
    rcases (hx.child hy).of_mem_paths q hq with ⟨hlast, hcoherent⟩
    rw [hcoherent.root.kind]
    exact h _ (hstart.subset (List.mem_of_getLast? hlast))

end Conventions

namespace StylesheetWriter

variable {w : StylesheetWriter} {x : Component}

/-! ## Groups -/

/-- The Elements below a node that have states and are reached through Elements alone: their states,
with the classes on the way from the node to each of them, in the order of the tree. -/
def elementGroups (w : StylesheetWriter) (x : Component) : List ElementStates :=
  ((Component.pathsIn x.ordered).filter fun p =>
    x.ThroughElements p.1 ∧ w.stateSelectors p.2 ≠ []).map fun p => ⟨p.1, w.stateSelectors p.2⟩

/-- No class on the way to the node is a Block, and the node has states. -/
def Stateful (w : StylesheetWriter) (p : List String × Component) : Prop :=
  w.conventions.NoBlocks p.1 ∧ w.stateSelectors p.2 ≠ []

instance (w : StylesheetWriter) (p : List String × Component) : Decidable (w.Stateful p) :=
  inferInstanceAs (Decidable (_ ∧ _))

theorem statesOfElement_eq_of_coherent {t : Component} (ht : w.conventions.TreeCoherent t) :
    ∀ path : List String, w.statesOfElement path t =
      (t.paths.filter fun p => w.Stateful p).map fun p => ⟨path ++ p.1, w.stateSelectors p.2⟩ := by
  -- along the tree, for whatever way has led to it
  refine ht.induction ?_
  clear ht t
  intro t ht ih path
  have hkind : w.conventions.isIndependent t.base = t.independent := ht.root.kind.symm
  rw [statesOfElement_eq]
  cases hi : t.independent with
  | true =>
    -- every way in the tree begins with a Block
    have hnone : (t.paths.filter fun p => w.Stateful p) = [] := by
      rw [List.filter_eq_nil_iff]
      intro p hp hlisted
      have := (of_decide_eq_true hlisted).1 t.base (Component.base_mem_of_mem_paths hp)
      simp [hkind, hi] at this
    rw [if_pos rfl, hnone, List.map_nil]
  | false =>
    have hroot : w.Stateful ([t.base], t) ↔ w.stateSelectors t ≠ [] := by
      simp [Stateful, Conventions.NoBlocks, hkind, hi]
    have hbelow : ∀ p : List String × Component, w.Stateful (t.base :: p.1, p.2) ↔ w.Stateful p := by
      intro p
      simp [Stateful, Conventions.noBlocks_cons, hkind, hi]
    have hchildren : t.ordered.flatMap (w.statesOfElement (path ++ [t.base])) =
        ((Component.pathsIn t.ordered).filter fun p => w.Stateful p).map fun p =>
          (⟨path ++ t.base :: p.1, w.stateSelectors p.2⟩ : ElementStates) := by
      rw [Component.pathsIn_eq_flatMap, List.filter_flatMap, List.map_flatMap]
      refine List.flatMap_congr fun y hy => ?_
      rw [ih y hy]
      simp only [List.append_assoc, List.singleton_append]
    rw [if_neg (by simp), hchildren, Component.paths_eq, List.filter_cons, List.filter_map]
    simp only [Function.comp_def, hroot, hbelow]
    by_cases hstates : w.stateSelectors t = []
    · simp [hstates]
    · simp [hstates]

/-- What the writer collects on its way down is what is to be listed. -/
theorem elementStates_eq (hx : w.conventions.TreeCoherent x) :
    w.elementStates x = w.elementGroups x := by
  have hlisted : ((Component.pathsIn x.ordered).filter fun p =>
      x.ThroughElements p.1 ∧ w.stateSelectors p.2 ≠ []) =
        (Component.pathsIn x.ordered).filter fun p => w.Stateful p :=
    List.filter_congr fun p hp => decide_eq_decide.mpr
      (and_congr_left fun _ => Conventions.throughElements_iff hx hp)
  rw [elementStates, statesOfElements_eq, elementGroups, hlisted, Component.pathsIn_eq_flatMap,
    List.filter_flatMap, List.map_flatMap]
  exact List.flatMap_congr fun y hy => statesOfElement_eq_of_coherent (hx.child hy) []

theorem mem_elementGroups {g : ElementStates} :
    g ∈ w.elementGroups x ↔ ∃ p ∈ Component.pathsIn x.ordered,
      (x.ThroughElements p.1 ∧ w.stateSelectors p.2 ≠ []) ∧ g = ⟨p.1, w.stateSelectors p.2⟩ := by
  rw [elementGroups, List.mem_map]
  constructor
  · rintro ⟨p, hp, rfl⟩
    rcases List.mem_filter.mp hp with ⟨hp, hlisted⟩
    exact ⟨p, hp, of_decide_eq_true hlisted, rfl⟩
  · rintro ⟨p, hp, hlisted, rfl⟩
    exact ⟨p, List.mem_filter.mpr ⟨hp, decide_eq_true hlisted⟩, rfl⟩

theorem stateSelectors_nodup : (w.stateSelectors x).Nodup := unique_nodup _

/-! ## Ways to Elements -/

/-- The selector that leads to an Element is a sequence of words. -/
theorem pathSelector_eq_intercalate (g : ElementStates) :
    g.pathSelector = " ".intercalate (g.path.flatMap fun b => [">", "." ++ b]) := by
  rcases g with ⟨path, selectors⟩
  rw [ElementStates.pathSelector, ← String.toList_inj, String.toList_intercalate,
    String.toList_intercalate]
  dsimp only
  induction path with
  | nil => rfl
  | cons b path ih =>
    cases path with
    | nil => simp [List.intercalate_cons_cons]
    | cons b' path =>
      simp only [List.map_cons, List.flatMap_cons, List.cons_append, List.nil_append,
        List.intercalate_cons_cons] at ih ⊢
      rw [ih]
      simp

theorem words_pathSelector {g : ElementStates} (h : ∀ b ∈ g.path, Text.IsWord b) :
    Text.words g.pathSelector = g.path.flatMap fun b => [">", "." ++ b] := by
  rw [pathSelector_eq_intercalate]
  refine Text.words_intercalate fun s hs => ?_
  rcases List.mem_flatMap.mp hs with ⟨b, hb, hs⟩
  rcases List.mem_cons.mp hs with rfl | hs
  · decide
  · have hdot : ∀ c ∈ ".".toList, Text.isBlank c = false := by
      intro c hc
      rw [List.mem_singleton.mp hc]
      rfl
    rw [List.mem_singleton.mp hs]
    exact .of_append hdot (h b hb)

theorem path_eq_of_words {path path' : List String}
    (h : (path.flatMap fun b => [">", "." ++ b]) = path'.flatMap fun b => [">", "." ++ b]) :
    path = path' := by
  induction path generalizing path' with
  | nil =>
    cases path' with
    | nil => rfl
    | cons => cases h
  | cons b path ih =>
    cases path' with
    | nil => cases h
    | cons b' path' =>
      simp only [List.flatMap_cons, List.cons_append, List.nil_append, List.cons.injEq, true_and]
        at h
      have hchars := congrArg String.toList h.1
      have hb : b = b' := String.toList_injective (by simpa using hchars)
      rw [hb, ih h.2]

/-- Different ways have different selectors. -/
theorem pathSelectors_nodup {groups : List ElementStates}
    (hwords : ∀ g ∈ groups, ∀ b ∈ g.path, Text.IsWord b)
    (hpaths : (groups.map ElementStates.path).Nodup) :
    (groups.map ElementStates.pathSelector).Nodup := by
  refine hpaths.of_map.map_on fun g hg g' hg' he => ?_
  have hpath : g.path = g'.path := by
    apply path_eq_of_words
    rw [← words_pathSelector (hwords g hg), ← words_pathSelector (hwords g' hg'), he]
  exact List.inj_on_of_nodup_map hpaths hg hg' hpath

/-! ## Lines -/

/-- The lines below the second marked line of a file: a rule for states of the Block and a rule for
every group, or a rule that is commented out. -/
def interactionLines (states : List String) (groups : List ElementStates) : List String :=
  if states = [] ∧ groups = [] then [line 1 "// @at-root & \x7b", line 1 "// \x7d"]
  else
    opening 1 "@at-root &" ::
      (states.flatMap (stateLines 2) ++ groups.flatMap (elementStateLines 2)) ++ [closing 1]

theorem sectionLines_eq_append (x : Component) :
    w.sectionLines 1 x = ["", line 1 sharedMarker, "", line 1 interactionMarker] ++
      interactionLines (w.stateSelectors x) (w.elementStates x) ++ [""] := by
  unfold sectionLines interactionLines
  rw [List.append_assoc]
  congr 1
  split
  · rename_i hstates helements
    rw [if_pos ⟨hstates, helements⟩]
    rfl
  · rename_i hsome
    rw [if_neg fun h => hsome h.1 h.2, List.append_assoc]
    rfl

/-- The last of these lines closes a rule, in a comment or not. -/
theorem exists_last_interactionLines (states : List String) (groups : List ElementStates) :
    ∃ before text, interactionLines states groups = before ++ [text] ∧ Solid text := by
  unfold interactionLines
  split
  · exact ⟨[line 1 "// @at-root & \x7b"], _, rfl, by decide⟩
  · exact ⟨_, closing 1, rfl, by decide⟩

theorem blockBody_eq_intercalate (hblock : x.independent = true) (asRoot : Bool) :
    w.blockBody 1 asRoot x = "\n".intercalate (w.bodyLines 1 asRoot x ++
      ["", line 1 sharedMarker, "", line 1 interactionMarker] ++
      interactionLines (w.stateSelectors x) (w.elementStates x)) := by
  rcases exists_last_interactionLines (w.stateSelectors x) (w.elementStates x) with
    ⟨before, text, hlines, hsolid⟩
  rw [blockBody_eq_joinLines, if_pos hblock, sectionLines_eq_append, hlines]
  have hjoined := joinLines_of_solid (w.bodyLines 1 asRoot x ++
    ["", line 1 sharedMarker, "", line 1 interactionMarker] ++ before) hsolid
  simpa only [List.append_assoc, List.cons_append, List.nil_append] using hjoined

/-- The stub is written if there is nothing to list, and only then. -/
theorem interactionLines_eq_stub_iff {states : List String} {groups : List ElementStates} :
    interactionLines states groups = [line 1 "// @at-root & \x7b", line 1 "// \x7d"] ↔
      states = [] ∧ groups = [] := by
  unfold interactionLines
  constructor
  · intro h
    by_contra hsome
    rw [if_neg hsome, List.cons_append] at h
    exact absurd (List.cons.inj h).1 (by decide)
  · exact fun h => if_pos h

/-! ## Files -/

/-- What a list of groups below a node is that shows the states of every Element in one place. -/
structure Grouped (x : Component) (groups : List ElementStates) : Prop where
  /-- No two groups are for the same Element. -/
  paths_nodup : (groups.map ElementStates.path).Nodup
  /-- Their rules have different selectors. -/
  pathSelectors_nodup : (groups.map ElementStates.pathSelector).Nodup
  /-- There are states in every group, and no state is there twice. -/
  selectors : ∀ g ∈ groups, g.selectors ≠ [] ∧ g.selectors.Nodup
  /-- No group is for a Block below the node, or for what is below such a Block. -/
  outside_blocks : ∀ p ∈ Component.pathsIn x.ordered, p.2.independent = true →
    ∀ g ∈ groups, ¬ p.1 <+: g.path

theorem grouped_elementGroups (hx : w.conventions.TreeCoherent x) (hnamed : x.Named) :
    Grouped x (w.elementGroups x) := by
  -- the ways to the groups are some of the ways to all nodes
  have hpaths : ((w.elementGroups x).map ElementStates.path).Nodup := by
    have hall := Component.pathsIn_nodup hx.root.bases_nodup fun y hy => (hx.child hy).paths_nodup
    rw [elementGroups, List.map_map]
    exact hall.sublist (List.filter_sublist.map Prod.fst)
  refine ⟨hpaths, ?_, ?_, ?_⟩
  · refine pathSelectors_nodup (fun g hg b hb => ?_) hpaths
    rcases mem_elementGroups.mp hg with ⟨p, hp, _, rfl⟩
    rcases Component.mem_pathsIn.mp hp with ⟨y, hy, hp⟩
    have hbelow : y.Named := fun z hz => hnamed z (.ordered hy hz)
    exact hbelow.isWord_of_mem_paths hp hb
  · intro g hg
    rcases mem_elementGroups.mp hg with ⟨p, _, hlisted, rfl⟩
    exact ⟨hlisted.2, stateSelectors_nodup⟩
  · intro q hq hblock g hg hstart
    rcases mem_elementGroups.mp hg with ⟨p, _, hlisted, rfl⟩
    rw [hlisted.1 q hq hstart] at hblock
    cases hblock

/-- The file of a Block of any tree that is built ends with the states of the Block, each once, and then
a group of rules for every Element below that has states and is reached through Elements alone, in the
order of the tree. The section is commented out just if there is nothing to list. -/
theorem interaction_of_fileContent {t : Component} (ht : w.conventions.Built t) (hx : x.IsNodeOf t)
    (hblock : x.independent = true) (parent : Option Component) (hint : String)
    (rootFile : Option String) :
    w.fileContent x parent hint rootFile =
        "\n".intercalate (w.headerLines x parent hint rootFile ++ [opening 0 ("." ++ x.base)] ++
          (w.bodyLines 1 x.isRoot x ++ ["", line 1 sharedMarker, "", line 1 interactionMarker] ++
            interactionLines (w.stateSelectors x) (w.elementGroups x)) ++ [closing 0, ""]) ∧
      (w.stateSelectors x).Nodup ∧ Grouped x (w.elementGroups x) ∧
      (interactionLines (w.stateSelectors x) (w.elementGroups x) =
          [line 1 "// @at-root & \x7b", line 1 "// \x7d"] ↔
        w.stateSelectors x = [] ∧ w.elementGroups x = []) := by
  have hcoherent : w.conventions.TreeCoherent x :=
    fun y hy => Conventions.coherent_of_built ht (hy.trans hx)
  have hnamed : x.Named := fun y hy => Conventions.named_of_built ht y (hy.trans hx)
  refine ⟨?_, stateSelectors_nodup, grouped_elementGroups hcoherent hnamed,
    interactionLines_eq_stub_iff⟩
  have hfile : [opening 0 ("." ++ x.base), w.blockBody 1 x.isRoot x, closing 0, ""] =
      [opening 0 ("." ++ x.base)] ++ w.blockBody 1 x.isRoot x :: [closing 0, ""] := rfl
  rw [fileContent_eq, hfile, ← List.append_assoc, blockBody_eq_intercalate hblock,
    elementStates_eq hcoherent]
  exact Text.intercalate_intercalate (by simp) (by simp) (by simp)

/-- A card with a button and an icon in it, and a Block between them and a note: the note is left to the
file of that Block. -/
theorem interaction_of_feature_card :
    let w : StylesheetWriter := ⟨{}, {}⟩
    let element (name : String) (mark : String × String) (children : List Markup.Node) :
        Markup.Node := .element "div" [("class", name), mark] children
    let note := element "note" ("data-state", "open") []
    let icon := element "icon" ("aria-expanded", "true") []
    let page := element "feature-card" ("data-state", "loading")
      [element "trigger" ("data-state", "open") [icon, element "media-card" ("id", "m") [note]]]
    ∃ t, w.conventions.build 0 page = some t ∧ t.independent = true ∧
      w.stateSelectors t = ["&[data-state=\"loading\"]"] ∧
      (w.elementGroups t).map (fun g => (g.pathSelector, g.selectors)) =
        [("> .trigger", ["&[data-state=\"open\"]"]),
          ("> .trigger > .icon", ["&[aria-expanded=\"true\"]"])] ∧
      Grouped t (w.elementGroups t) := by
  intro w element note icon page
  obtain ⟨t, ht⟩ : ∃ t, w.conventions.build 0 page = some t :=
    Option.isSome_iff_exists.mp (by decide +kernel)
  have hfacts : (w.conventions.build 0 page).map (fun t => (t.independent, w.stateSelectors t,
      (w.elementGroups t).map fun g => (g.pathSelector, g.selectors))) =
        some (true, ["&[data-state=\"loading\"]"], [("> .trigger", ["&[data-state=\"open\"]"]),
          ("> .trigger > .icon", ["&[aria-expanded=\"true\"]"])]) := by decide +kernel
  rw [ht] at hfacts
  obtain ⟨hblock, hstates, hgroups⟩ : _ ∧ _ ∧ _ := by simpa using hfacts
  exact ⟨t, ht, hblock, hstates, by simpa using hgroups,
    (interaction_of_fileContent (.build ht) (.root t) hblock none "" none).2.2.1⟩

end StylesheetWriter

end BlockMarkup
