import BlockMarkup.Proofs.Component.Wrapped
import BlockMarkup.Proofs.Lint.Exactness
import BlockMarkup.Proofs.Stylesheet.Alike

/-! # Elements without classes are invisible

Wrapping content into elements without a class changes neither what the linter says about nodes nor
the stylesheets: the trees are the same but for marks (`plain_of_wraps`) that no rule looks at
(`check_own`) and no stylesheet shows.
-/

namespace BlockMarkup

open Markup (RootMode Node)
open Markup.Node (Wraps Shallow)
open Component (base Corresponds SameNode SameStyles)

/-! ## What rules look at -/

/-- The node under lint without anything below it and without marks. -/
def NodeContext.own (x : NodeContext) : NodeContext :=
  { x with
    component := .mk x.component.base false x.component.modifiers x.component.variants
      x.component.states [] [] [] "" false false }

/-- Of its component, a rule looks at the classes and the marked attributes. -/
theorem Rule.check_own {r : Rule} (hr : r ∈ Rule.all) (x : NodeContext) :
    r.check x.own = r.check x := by
  rw [mem_all_iff] at hr
  simp only [baseClassRules, attributeRules, modifierRules, hierarchyRules, List.mem_cons,
    List.not_mem_nil, or_false] at hr
  rcases hr with (rfl | rfl) | (rfl | rfl | rfl | rfl) | (rfl | rfl | rfl | rfl) |
    (rfl | rfl | rfl)
  all_goals rfl

namespace Lint

variable {c : Conventions} {mode : RootMode} {x y : Component}

/-- The rules find at a node what they find at it without the nodes below. -/
theorem nodeIssues_own (z : NodeContext) (path : List String) :
    nodeIssues z.own path = nodeIssues z path := by
  have hfindings : findings z.own = findings z :=
    collect_congr (List.map_congr_left fun r hr => Rule.check_own hr z)
  rw [nodeIssues_eq, nodeIssues_eq, hfindings]
  rfl

/-- Nodes that are the same but for marks have the same issues in the same place. -/
theorem nodeIssues_congr (h : SameNode x y) (above : List String) (insideBlock : Bool) :
    nodeIssues (contextAt c mode above insideBlock x) (above ++ [x.base]) =
      nodeIssues (contextAt c mode above insideBlock y) (above ++ [y.base]) := by
  have hown : (contextAt c mode above insideBlock x).own =
      (contextAt c mode above insideBlock y).own := by
    simp only [NodeContext.own, contextAt, h.base, h.modifiers, h.variants, h.states]
  rw [← nodeIssues_own, ← nodeIssues_own (contextAt c mode above insideBlock y), hown, h.base]

/-- Such nodes count as Blocks or not alike. -/
theorem actsAsBlock_congr (h : SameNode x y) : c.actsAsBlock x = c.actsAsBlock y := by
  have hown : ∀ z : Component, c.actsAsBlock z =
      (contextAt c .root [] false z).own.actsAsBlock := fun _ => rfl
  have hsame : (contextAt c .root [] false x).own = (contextAt c .root [] false y).own := by
    simp only [NodeContext.own, contextAt, h.base, h.modifiers, h.variants, h.states]
  rw [hown, hown, hsame]

/-- What the rules say at the nodes that the walk visits, in its order. -/
def walked (c : Conventions) (mode : RootMode) (above : List String) (insideBlock : Bool)
    (t : Component) : List (Except Regex.ReadError (List Issue)) :=
  (visits c mode above insideBlock t).map fun v => nodeIssues v.2 v.1

theorem walked_side_by_side {above : List String} {insideBlock : Bool} {ts us : List Component}
    (h : List.Forall₂
      (fun t u => walked c mode above insideBlock t = walked c mode above insideBlock u) ts us) :
    (visitsIn c mode above insideBlock ts).map (fun v => nodeIssues v.2 v.1) =
      (visitsIn c mode above insideBlock us).map fun v => nodeIssues v.2 v.1 := by
  induction h with
  | nil => rfl
  | cons hfirst _ ih =>
    rw [walked, walked] at hfirst
    rw [visitsIn, visitsIn, List.map_append, List.map_append, hfirst, ih]

/-- The walk meets the same issues in the same order. -/
theorem walked_congr (h : Corresponds SameNode x y) (hx : c.TreeCoherent x)
    (hy : c.TreeCoherent y) (above : List String) (insideBlock : Bool) :
    walked c mode above insideBlock x = walked c mode above insideBlock y := by
  induction h generalizing above insideBlock with
  | @mk x y here bases children ih =>
    rcases Component.forall₂_children hx.root hy.root bases fun u hu v hv hclass =>
      ⟨(children u hu v hv hclass).here.independent,
        ih u hu v hv hclass (hx.child hu) (hy.child hv) (above ++ [y.base])
          (c.actsAsBlock y || insideBlock)⟩ with ⟨hnested, hindependents⟩
    rw [walked, walked, visits_def, visits_def, List.map_cons, List.map_cons, List.map_append,
      List.map_append, actsAsBlock_congr here, here.base, walked_side_by_side hnested,
      walked_side_by_side hindependents]
    have hhere : nodeIssues (contextAt c mode above insideBlock x) (above ++ [x.base]) =
        nodeIssues (contextAt c mode above insideBlock y) (above ++ [y.base]) :=
      nodeIssues_congr here above insideBlock
    rw [here.base] at hhere
    exact congrArg (· :: _) hhere

/-- Elements whose trees are the same but for marks have the same issues. -/
theorem walkIssues_congr {n n' : Node} (hbuild : c.build 0 n = some x)
    (hbuild' : c.build 0 n' = some y) (h : Corresponds SameNode x y) :
    walkIssues c mode [n] = walkIssues c mode [n'] := by
  have hone : ∀ m u, c.build 0 m = some u → walkIssues c mode [m] =
      collect (fun v => nodeIssues v.2 v.1) (visits c mode [] false u) := by
    intro m u hu
    rw [walkIssues, treesIssues_eq, List.filterMap_cons_some hu, List.filterMap_nil, visitsIn,
      visitsIn, List.append_nil]
  rw [hone n x hbuild, hone n' y hbuild']
  exact collect_congr (walked_congr h (Conventions.treeCoherent_of_build 0 n x hbuild)
    (Conventions.treeCoherent_of_build 0 n' y hbuild') [] false)

end Lint

/-! ## The whole of it -/

/-- Wrapping runs of content into elements without a class, wherever below an element with a class and
as often as one likes, as long as no element comes to be too deep: the tree that is built is the same
but for the marks of wrapping, the rules find the same issues at its nodes in the same order, and the
stylesheets are the same. -/
theorem wrapping_is_invisible (w : StylesheetWriter) {n n' : Node} (h : Wraps n n')
    (hclass : n.classTokens ≠ []) (hdepth : n'.Shallow 0) :
    (∃ t t', w.conventions.build 0 n = some t ∧ w.conventions.build 0 n' = some t' ∧
      t.plain = t'.plain) ∧
    ∀ mode, Lint.walkIssues w.conventions mode [n] = Lint.walkIssues w.conventions mode [n'] ∧
      w.filesFor mode (w.rootTrees mode [n]) = w.filesFor mode (w.rootTrees mode [n']) := by
  rcases Conventions.sameNodes_of_wraps (c := w.conventions) h hclass hdepth with
    ⟨t, t', hbuild, hbuild', hsame⟩
  have hstyles : Corresponds SameStyles t t' := hsame.mono fun _ _ hxy =>
    ⟨hxy.base, hxy.independent, hxy.isRoot, congrArg unique hxy.modifiers, hxy.variants, hxy.states⟩
  refine ⟨⟨t, t', hbuild, hbuild', ?_⟩, fun mode => ⟨?_, ?_⟩⟩
  · exact Component.plain_of_sameNodes hsame (Conventions.treeCoherent_of_build 0 n t hbuild)
      (Conventions.treeCoherent_of_build 0 n' t' hbuild')
  · exact Lint.walkIssues_congr hbuild hbuild' hsame
  · exact StylesheetWriter.filesFor_congr hbuild hbuild' hstyles mode

/-- A banner with a text and two cards: first all of it is wrapped, then the cards within. -/
theorem wrapping_of_banner :
    let w : StylesheetWriter := ⟨{}, {}⟩
    let text : Node := .element "p" [("class", "desc -a"), ("data-variant", "en")] []
    let card : Node := .element "div" [("class", "media-card")] []
    let banner (content : List Node) : Node :=
      .element "div" [("class", "hero-banner")] content
    let wrapper (content : List Node) : Node := .element "div" [("class", " ")] content
    let plain := banner [text, card, card]
    let wrapped := banner [wrapper [text, wrapper [card, card]]]
    Wraps plain wrapped ∧ plain.classTokens ≠ [] ∧ wrapped.Shallow 0 ∧
      (∃ t t', w.conventions.build 0 plain = some t ∧ w.conventions.build 0 wrapped = some t' ∧
        t.plain = t'.plain ∧ t ≠ t') ∧
      Lint.walkIssues w.conventions .root [plain] = Lint.walkIssues w.conventions .root [wrapped] ∧
      w.filesFor .root (w.rootTrees .root [plain]) =
        w.filesFor .root (w.rootTrees .root [wrapped]) := by
  intro w text card banner wrapper plain wrapped
  have hall : Wraps plain (banner [wrapper [text, card, card]]) :=
    .single (.run _ _ [] [text, card, card] [] _ _ (by decide +kernel))
  have hwraps : Wraps plain wrapped :=
    hall.tail (.inside _ _ [] [] (.run _ _ [text] [card, card] [] _ _ (by decide +kernel)))
  have hclass : plain.classTokens ≠ [] := by decide +kernel
  have hshallow : wrapped.Shallow 0 := by decide +kernel
  rcases wrapping_is_invisible w hwraps hclass hshallow with
    ⟨⟨t, t', hbuild, hbuild', hplain⟩, hmodes⟩
  refine ⟨hwraps, hclass, hshallow, ⟨t, t', hbuild, hbuild', hplain, ?_⟩, (hmodes .root).1,
    (hmodes .root).2⟩
  -- the marks of wrapping differ
  have hmarks : ((w.conventions.build 0 plain).map (·.ordered.map (·.viaDeep))) ≠
      (w.conventions.build 0 wrapped).map (·.ordered.map (·.viaDeep)) := by decide +kernel
  rintro rfl
  rw [hbuild, hbuild'] at hmarks
  exact hmarks rfl

end BlockMarkup
