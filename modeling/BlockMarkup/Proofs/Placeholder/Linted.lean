import BlockMarkup.Proofs.Component.BlockPath
import BlockMarkup.Proofs.Lint.Pooled
import BlockMarkup.Proofs.Lint.Walk
import BlockMarkup.Proofs.Placeholder.Tree

/-! # What the linter says about formatted markup

If the invented names are of the kinds they stand for, the tree of a formatted root is in order: on
the way to a node there are only Blocks (`Formattable.kinds_of_mem_paths`), so no rule finds fault
with the base class of a node or with the place of a Block or an Element.

Main statement: `tree_of_formatRoot`.
-/

namespace BlockMarkup

open Markup (Node Attributes ClassAttribute)

namespace Route

/-- The first classes on the way to a classed element. -/
theorem dropLast_chain {r : Route} (h : r.here.classTokens ≠ []) :
    r.chain.dropLast = r.around.filterMap fun n => n.classTokens.head? := by
  rcases List.exists_cons_of_ne_nil h with ⟨b, rest, hb⟩
  simp [chain, hb]

end Route

theorem NamingOptions.classifyWith_none (n : NamingOptions) (name : String) :
    n.classifyWith {} name = .own (n.classify name) := by
  simp [classifyWith, ExternalOptions.covers]

theorem NamingOptions.classify_empty (n : NamingOptions) : n.classify "" = .invalid := by
  simp [classify_eq, isBlock, isElement]

namespace FormatOptions

/-- An element whose tree can be given placeholders: classes stand in the plain attribute alone, the
invented names are of the kinds they stand for, and every Element in it can become a Block. -/
structure Formattable (o : FormatOptions) (root : Node) : Prop where
  isElement : root.isElement = true
  plain : o.classAttribute = .plain
  ordinary : ∀ r ∈ root.routes, r.here.attribute? ClassAttribute.internalName = none
  consistent : o.Consistent
  promotes : ∀ r ∈ root.routes, o.Promotes r.base

variable {o : FormatOptions} {root : Node}

/-! ## Classes -/

theorem classSlot_of_ordinary (hplain : o.classAttribute = .plain) {as : Attributes}
    (h : as.lookup ClassAttribute.internalName = none) :
    o.classSlot as = ("class", (as.lookup "class").getD "") := by
  rw [classSlot, h, hplain]
  cases as.lookup "class" <;> rfl

theorem baseOf_eq (hplain : o.classAttribute = .plain) {r : Route}
    (h : r.here.attribute? ClassAttribute.internalName = none) : o.baseOf r.here = r.base := by
  rw [baseOf, classesOf, classSlot_of_ordinary hplain h]
  rfl

/-- Where classes stand in the plain attribute alone, formatting leaves them there. -/
theorem lookup_internalName_applyClasses (hplain : o.classAttribute = .plain) {as : Attributes}
    (h : as.lookup ClassAttribute.internalName = none) (d : Decision) :
    (o.applyClasses as d).lookup ClassAttribute.internalName = none := by
  rw [applyClasses]
  split
  · exact h
  · have hne : ClassAttribute.internalName ≠ "class" := by decide
    rw [classSlot_of_ordinary hplain h, Markup.lookup_setAttribute_of_ne hne]
    exact h

namespace Formattable

/-- The names in a formatted tree are the classes that formatting has chosen. -/
theorem baseOf_eq_of_mem_routes (h : o.Formattable root) {r : Route}
    (hr : r ∈ (o.formatRoot root).1.routes) : o.baseOf r.here = r.base := by
  rcases exists_origin hr with ⟨r', hr', d, hd⟩
  refine baseOf_eq h.plain ?_
  rw [Node.attribute?, hd]
  exact lookup_internalName_applyClasses h.plain (h.ordinary r' hr') d

theorem block_root (h : o.Formattable root) :
    o.naming.classify (Route.mk [] (o.formatRoot root).1).base = .block := by
  have hblock := block_formatRoot h.consistent h.isElement
  have hroot : (o.formatRoot root).1.isElement = true := by
    cases root with
    | element name as ns => rfl
    | leaf kind s => cases h.isElement
  rwa [h.baseOf_eq_of_mem_routes (Node.self_mem_routes hroot)] at hblock

/-- Above the depth limit every first class is of the kind that the content asks for. -/
theorem fits (h : o.Formattable root) {r : Route} (hr : r ∈ (o.formatRoot root).1.routes)
    (hdepth : r.around.length < maxDepth) :
    o.Fits r.base (r.here.children.any Node.isElement) := by
  rw [← h.baseOf_eq_of_mem_routes hr]
  refine fits_formatRoot h.consistent (fun r' hr' => ?_) hr hdepth
  rw [baseOf_eq h.plain (h.ordinary r' hr')]
  exact h.promotes r' hr'

/-! ## Nodes -/

variable {c : Conventions} {t : Component}

/-- A node of the tree is a Block or an Element, and all nodes on the way to it are Blocks. -/
theorem kinds_of_mem_paths (h : o.Formattable root)
    (hbuild : c.build 0 (o.formatRoot root).1 = some t) {p : List String × Component}
    (hp : p ∈ t.paths) :
    (o.naming.classify p.2.base = .block ∨ o.naming.classify p.2.base = .element) ∧
      ∀ b ∈ p.1.dropLast, o.naming.classify b = .block := by
  rcases (Conventions.mem_chains_iff hbuild).mp (List.mem_map_of_mem hp) with
    ⟨r, hr, ⟨hclass, hdepth⟩, hchain⟩
  rw [Nat.zero_add] at hdepth
  have hlast := ((Conventions.treeCoherent_of_build 0 _ t hbuild).of_mem_paths p hp).1
  constructor
  · rcases Route.chain_eq hclass with ⟨init, hinit⟩
    rw [← hchain, hinit, List.getLast?_concat] at hlast
    rw [← Option.some.inj hlast]
    exact (h.fits hr hdepth).2
  · intro b hb
    rw [← hchain, Route.dropLast_chain hclass] at hb
    rcases List.mem_filterMap.mp hb with ⟨e, he, hbase⟩
    rcases List.append_of_mem he with ⟨before, after, haround⟩
    -- an element on the way has content, so it is a Block
    have hway : ⟨before, e⟩ ∈ (o.formatRoot root).1.routes :=
      Node.mem_routes_of_around _ r hr haround
    have hlength : before.length < maxDepth := by
      have hlt : r.around.length < maxDepth := hdepth
      rw [haround, List.length_append, List.length_cons] at hlt
      omega
    have hcontent := Node.any_isElement_of_mem_around _ r hr e he
    have hkind := (h.fits hway hlength).1 hcontent
    rwa [Route.base, List.headD_eq_head?_getD, hbase] at hkind

/-- Every node below the root stands inside a Block, the root for one. -/
theorem blockAbove_of_mem_paths (h : o.Formattable root) (hnaming : c.naming = o.naming)
    (hexternal : c.external = {}) (hbuild : c.build 0 (o.formatRoot root).1 = some t)
    {p : List String × Component} (hp : p ∈ t.paths) (hne : p.1 ≠ [t.base]) :
    c.BlockAbove t p.1 := by
  have hbase : o.naming.classify t.base = .block := by
    rw [Conventions.base_of_build hbuild]
    exact h.block_root
  refine ⟨([t.base], t), Component.mem_paths.mpr (Or.inl rfl), ⟨?_, hne.symm⟩, ?_⟩
  · rcases List.head?_eq_some_iff.mp (Component.head?_of_mem_paths hp) with ⟨rest, hrest⟩
    exact ⟨rest, hrest.symm⟩
  · have hkind : c.naming.classifyWith c.external t.base = .own .block := by
      rw [hnaming, hexternal, NamingOptions.classifyWith_none, hbase]
    simp [Conventions.actsAsBlock, NodeContext.actsAsBlock, NodeContext.inferredKind,
      NodeContext.hasExternalBase, NodeContext.baseKind, NodeContext.naming, NodeContext.external,
      NodeContext.base, hkind]

/-- The tree of a formatted root, seen from any of its nodes. -/
theorem not_reported (h : o.Formattable root) (hnaming : c.naming = o.naming)
    (hexternal : c.external = {}) (hbuild : c.build 0 (o.formatRoot root).1 = some t)
    {p : List String × Component} (hp : p ∈ t.paths) {code : IssueCode}
    (hcode : code ∈ [.invalidBaseClass, .elementParentOfBlock, .elementWithoutBlockAncestor]) :
    ¬ Lint.Reported (Lint.contextAt c .selection p.1.dropLast (decide (c.BlockAbove t p.1)) p.2)
      code := by
  have hkind : ∀ b, c.naming.classifyWith c.external b = .own (o.naming.classify b) := by
    intro b
    rw [hnaming, hexternal, NamingOptions.classifyWith_none]
  rcases h.kinds_of_mem_paths hbuild hp with ⟨hown, habove⟩
  generalize hx : Lint.contextAt c .selection p.1.dropLast (decide (c.BlockAbove t p.1)) p.2 = x
  have hbase : x.baseKind = .own (o.naming.classify p.2.base) := by
    rw [← hx]
    exact hkind _
  simp only [List.mem_cons, List.not_mem_nil, or_false] at hcode
  rcases hcode with rfl | rfl | rfl
  · rw [Lint.reported_invalidBaseClass, hbase]
    rintro (hforeign | hinvalid)
    · -- without third-party classes no base class is one
      rw [NodeContext.hasOwnClass, NodeContext.hasExternalBase, hbase] at hforeign
      cases hforeign
    · rcases hown with hown | hown <;> simp [hown] at hinvalid
  · rw [Lint.reported_elementParentOfBlock]
    rintro ⟨_, parent, hparent, helement⟩
    rw [← hx] at hparent helement
    have hblock := habove parent (List.mem_of_getLast? hparent)
    have hclass : c.naming.classifyWith c.external parent = .own .element := helement
    rw [hkind, hblock] at hclass
    cases hclass
  · rw [Lint.reported_elementWithoutBlockAncestor, hbase]
    rintro ⟨helement, hinside⟩
    rw [← hx] at hinside
    have hnone : ¬ c.BlockAbove t p.1 := of_decide_eq_false hinside
    by_cases hne : p.1 = [t.base]
    · -- the root is a Block itself
      have hlast := ((Conventions.treeCoherent_of_build 0 _ t hbuild).of_mem_paths p hp).1
      have hroot := h.block_root
      rw [hne, List.getLast?_singleton, Option.some.injEq,
        Conventions.base_of_build hbuild] at hlast
      rw [hlast] at hroot
      rw [hroot] at helement
      cases helement
    · exact hnone (h.blockAbove_of_mem_paths hnaming hexternal hbuild hp hne)

end Formattable

/-- A formatted root has a tree, and at none of its nodes is there an issue about an invalid base
class, about a Block under an Element or about an Element outside of Blocks. Up to the depth limit
every element with elements in its content has a Block first, and every other one a Block or an
Element. -/
theorem tree_of_formatRoot (h : o.Formattable root) (policy : SelectorPolicy) :
    let c : Conventions := ⟨o.naming, policy, {}⟩
    let formatted := (o.formatRoot root).1
    (∃ t, c.build 0 formatted = some t ∧
      (∀ v ∈ Lint.visits c .selection [] false t, ∀ code ∈
        [IssueCode.invalidBaseClass, .elementParentOfBlock, .elementWithoutBlockAncestor],
          ¬ Lint.Reported v.2 code) ∧
      (∀ issues, Lint.treeIssues c .selection [] false t = .ok issues → ∀ i ∈ issues, i.code ∉
        [IssueCode.invalidBaseClass, .elementParentOfBlock, .elementWithoutBlockAncestor]) ∧
      ((∃ p, policy.variant.valueNaming.pattern = .ok p) →
        (∃ p, policy.state.valueNaming.pattern = .ok p) →
          ∃ issues, Lint.treeIssues c .selection [] false t = .ok issues)) ∧
    ∀ r ∈ formatted.routes, r.around.length ≤ 255 →
      (r.here.childElements ≠ [] → o.naming.classify r.base = .block) ∧
        (o.naming.classify r.base = .block ∨ o.naming.classify r.base = .element) := by
  intro c formatted
  constructor
  · have hclass : formatted.classTokens ≠ [] := by
      intro hnone
      have hblock := h.block_root
      have hempty : (Route.mk [] formatted).base = "" := congrArg (List.headD · "") hnone
      rw [hempty, NamingOptions.classify_empty] at hblock
      cases hblock
    obtain ⟨t, hbuild⟩ : ∃ t, c.build 0 formatted = some t := 
      Conventions.exists_build_of_classTokens hclass
    have hcoherent := Conventions.treeCoherent_of_build 0 _ t hbuild
    have hsilent : ∀ v ∈ Lint.visits c .selection [] false t, ∀ code ∈
        [IssueCode.invalidBaseClass, .elementParentOfBlock, .elementWithoutBlockAncestor],
          ¬ Lint.Reported v.2 code := by
      intro v hv code hcode
      rcases (Lint.mem_visits hcoherent _ _ _).mp hv with ⟨p, hp, rfl⟩
      exact h.not_reported rfl rfl hbuild hp hcode
    refine ⟨t, hbuild, hsilent, ?_, ?_⟩
    · intro issues hissues i hi hcode
      rw [Lint.treeIssues_eq] at hissues
      rcases (mem_of_collect_eq_ok hissues).mp hi with ⟨v, hv, found, hfound, hi⟩
      rw [Lint.nodeIssues_eq] at hfound
      rcases map_eq_ok.mp hfound with ⟨fs, hfs, rfl⟩
      rcases List.mem_map.mp hi with ⟨f, hf, rfl⟩
      exact hsilent v hv f.code hcode ((Lint.reported_iff hfs).mpr ⟨f, hf, rfl⟩)
    · intro hvariant hstate
      rw [Lint.treeIssues_eq, exists_collect_eq_ok]
      intro v hv
      rcases (Lint.mem_visits hcoherent _ _ _).mp hv with ⟨p, _, rfl⟩
      rw [Lint.nodeIssues_eq, exists_map_eq_ok]
      exact Lint.exists_findings_of_patterns hvariant hstate
  · intro r hr hdepth
    rcases h.fits hr (Nat.lt_succ_of_le hdepth) with ⟨hblock, hown⟩
    refine ⟨fun hcontent => hblock ?_, hown⟩
    rcases List.exists_mem_of_ne_nil _ hcontent with ⟨e, he⟩
    rcases List.mem_filter.mp he with ⟨he, helement⟩
    exact List.any_eq_true.mpr ⟨e, he, helement⟩

/-- A section with a title and a list, formatted. -/
theorem tree_of_formatted_section :
    let o : FormatOptions := {}
    let c : Conventions := {}
    let root : Node := .element "section" [] [
      .element "h2" [("class", "title")] [.leaf .text "News".toList],
      .element "ul" [("class", "list")] [.element "li" [("class", "A")] []]]
    ∃ t, c.build 0 (o.formatRoot root).1 = some t ∧
      t.paths.map Prod.fst =
        [["block-box"], ["block-box", "title"], ["block-box", "list-box"],
          ["block-box", "list-box", "element"]] ∧
      ∀ v ∈ Lint.visits c .selection [] false t, ¬ Lint.Reported v.2 .elementParentOfBlock := by
  intro o c root
  have h : o.Formattable root := {
    isElement := rfl
    plain := rfl
    ordinary := by decide +kernel
    consistent := ⟨by decide +kernel, by decide +kernel⟩
    promotes := by decide +kernel }
  rcases tree_of_formatRoot h {} with ⟨⟨t, hbuild, hsilent, _⟩, _⟩
  have hpaths : ((c.build 0 (o.formatRoot root).1).map fun t => t.paths.map Prod.fst) =
      some [["block-box"], ["block-box", "title"], ["block-box", "list-box"],
        ["block-box", "list-box", "element"]] := by decide +kernel
  refine ⟨t, hbuild, ?_, fun v hv => hsilent v hv _ (by decide)⟩
  have hbuild' : c.build 0 (o.formatRoot root).1 = some t := hbuild
  rw [hbuild'] at hpaths
  exact Option.some.inj hpaths

end FormatOptions

end BlockMarkup
