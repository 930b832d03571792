import BlockMarkup.Lint.Run
import BlockMarkup.Stylesheet.Generate
import BlockMarkup.Proofs.Component.Likeness

/-! # The root of a document

A root is looked for among all elements in document order, so it may be one that stands inside of
another. `Document.rootRoute?` is the way to it, and `rootNode?_eq` says that the element at its end
is the root.

Main statements: the page or body element that the scan for tags has found is taken from the top of
the document just if none of its name is nested in something that stands before
(`rootRoute?_of_explicitRoot`), and the only possible root is the root just if it is the first element
(`rootNode?_of_rootCandidates`).
-/

namespace BlockMarkup.Markup

namespace Node

/-- Whether a node is an element of a given name. -/
def isNamed (name : String) (n : Node) : Bool := n.isElement && n.name == name

variable {name : String} {n : Node} {ns : List Node} {r : Route}

/-! ## Ways in document order -/

/-- A way to an element at the top of a tree is the one to the tree itself. -/
theorem eq_of_mem_routes (h : r ∈ n.routes) (htop : r.around = []) : r = ⟨[], n⟩ := by
  cases n with
  | leaf kind s => simp [routes] at h
  | element name attributes children =>
    rw [routes, List.mem_cons] at h
    rcases h with rfl | h
    · rfl
    · obtain ⟨q, -, rfl⟩ := List.mem_map.mp h
      cases htop

theorem isElement_of_self_mem (h : ⟨[], n⟩ ∈ n.routes) : n.isElement = true := by
  cases n with
  | leaf kind s => simp [routes] at h
  | element name attributes children => rfl

mutual

/-- The first element of a name is the first one of that name in document order. -/
theorem find?_eq (name : String) : ∀ n : Node,
    n.find? name = (n.routes.find? fun r => r.here.name == name).map Route.here
  | .leaf .. => rfl
  | .element m attributes children => by
    rw [find?, routes, List.find?_cons]
    dsimp only [Node.name]
    by_cases hm : m = name
    · rw [if_pos hm, beq_iff_eq.mpr hm]
      rfl
    · rw [if_neg hm, beq_eq_false_iff_ne.mpr hm, findIn?_eq name children, List.find?_map,
        Option.map_map]
      rfl

theorem findIn?_eq (name : String) : ∀ ns : List Node,
    findIn? name ns = ((routesIn ns).find? fun r => r.here.name == name).map Route.here
  | [] => rfl
  | n :: rest => by
    rw [findIn?, routesIn, List.find?_append, find?_eq name n, findIn?_eq name rest]
    cases n.routes.find? fun r => r.here.name == name with
    | none => rfl
    | some r => rfl

end

theorem find?_eq_none_iff : n.find? name = none ↔ ∀ r ∈ n.routes, (r.here.name == name) = false := by
  rw [find?_eq, Option.map_eq_none_iff, List.find?_eq_none]
  simp only [Bool.not_eq_true]

/-- The first element at the top is the first one in document order. -/
theorem find?_isElement (ns : List Node) :
    ns.find? isElement = (routesIn ns).head?.map Route.here := by
  induction ns with
  | nil => rfl
  | cons n rest ih =>
    cases n with
    | leaf kind s => exact ih
    | element name attributes children => rfl

/-- Behind trees at the top of which no element has the name, the first one of that name at the top is
reached just if none is nested in them. -/
theorem find?_routesIn_append {before : List Node} {top : Node} (htop : top.isNamed name = true)
    (hbefore : ∀ n ∈ before, n.isNamed name = false) (after : List Node) :
    ∃ r, (routesIn (before ++ top :: after)).find? (fun r => r.here.name == name) = some r ∧
      (r.around = [] ↔ ∀ n ∈ before, n.find? name = none) ∧ (r.around = [] → r.here = top) := by
  rw [isNamed, Bool.and_eq_true] at htop
  have hfirst : (routesIn (top :: after)).find? (fun r => r.here.name == name) =
      some ⟨[], top⟩ := by
    cases top with
    | leaf kind s => cases htop.1
    | element m attributes children => exact List.find?_cons_of_pos htop.2
  rw [routesIn_append, List.find?_append, hfirst]
  cases hnested : (routesIn before).find? fun r => r.here.name == name with
  | none =>
    refine ⟨⟨[], top⟩, rfl, ?_, fun _ => rfl⟩
    refine ⟨fun _ n hn => find?_eq_none_iff.mpr fun r hr => ?_, fun _ => rfl⟩
    have hno := List.find?_eq_none.mp hnested r (mem_routesIn.mpr ⟨n, hn, hr⟩)
    simpa using hno
  | some r =>
    -- an element of that name stands before, and not at the top
    obtain ⟨n, hn, hr⟩ := mem_routesIn.mp (List.mem_of_find?_eq_some hnested)
    have hname := List.find?_some hnested
    have hinside : r.around ≠ [] := by
      intro hnil
      have hself := eq_of_mem_routes hr hnil
      rw [hself] at hr hname
      have hnamed := hbefore n hn
      rw [isNamed, isElement_of_self_mem hr] at hnamed
      exact absurd (hname.symm.trans hnamed) (by simp)
    refine ⟨r, rfl, ⟨fun hnil => absurd hnil hinside, fun hnone => ?_⟩,
      fun hnil => absurd hnil hinside⟩
    have hno := find?_eq_none_iff.mp (hnone n hn) r hr
    rw [hname] at hno
    cases hno

end Node

namespace Document

/-- The way to the root. -/
def rootRoute? (d : Document) : Option Route :=
  match d.explicitRoot.bind fun name =>
      (Node.routesIn d.nodes).find? fun r => r.here.name == name with
  | some r => some r
  | none => (Node.routesIn d.nodes).head?

/-- The root is the element that the way leads to. -/
theorem rootNode?_eq (d : Document) : d.rootNode? = d.rootRoute?.map Route.here := by
  have hexplicit : (d.explicitRoot.bind fun name => Node.findIn? name d.nodes) =
      (d.explicitRoot.bind fun name =>
        (Node.routesIn d.nodes).find? fun r => r.here.name == name).map Route.here := by
    cases d.explicitRoot with
    | none => rfl
    | some name => exact Node.findIn?_eq name d.nodes
  rw [rootNode?, rootRoute?, hexplicit]
  cases d.explicitRoot.bind fun name =>
      (Node.routesIn d.nodes).find? fun r => r.here.name == name with
  | none => exact Node.find?_isElement d.nodes
  | some r => rfl

/-! ## The page and the body -/

/-- Where the scan for tags finds a page or body element and there is one of that name at the top, the
root has that name. It is the first one of that name at the top just if none is nested in a node
before it; otherwise it is not at the top. -/
theorem rootRoute?_of_explicitRoot {s : List Char} {name : String}
    (hroot : (Document.read .root s).explicitRoot = some name)
    (htop : ∃ n ∈ (Document.read .root s).nodes, n.isNamed name = true) :
    let d := Document.read .root s
    ∃ r before top after, d.rootRoute? = some r ∧ d.rootNode? = some r.here ∧
      r.here.name = name ∧ d.nodes = before ++ top :: after ∧ top.isNamed name = true ∧
      (∀ n ∈ before, n.isNamed name = false) ∧
      (r.around = [] ↔ ∀ n ∈ before, n.find? name = none) ∧ (r.around = [] → r.here = top) := by
  intro d
  obtain ⟨top, hfound⟩ : ∃ top, d.nodes.find? (Node.isNamed name) = some top := by
    rw [← Option.isSome_iff_exists, List.find?_isSome]
    exact htop
  obtain ⟨hnamed, before, after, hnodes, hbefore⟩ := List.find?_eq_some_iff_append.mp hfound
  simp only [Bool.not_eq_eq_eq_not, Bool.not_true] at hbefore
  obtain ⟨r, hr, hplace, hself⟩ := Node.find?_routesIn_append hnamed hbefore after
  have hroute : d.rootRoute? = some r := by
    rw [rootRoute?, show d.explicitRoot = some name from hroot, Option.bind_some, hnodes, hr]
  refine ⟨r, before, top, after, hroute, ?_, ?_, hnodes, hnamed, hbefore, hplace, hself⟩
  · rw [rootNode?_eq, hroute]
    rfl
  · have hname := List.find?_some hr
    simpa using hname

/-- A body behind a void element and a section without one is the root. -/
theorem rootRoute?_of_late_body :
    let d := Document.read .root "<br><main><p></p></main><body class=a-b></body>".toList
    d.explicitRoot = some "body" ∧ d.nodes.any (Node.isNamed "body") = true ∧
      ∃ r, d.rootRoute? = some r ∧ d.rootNode? = some r.here ∧ r.around = [] ∧
        r.here.classTokens = ["a-b"] := by
  have hcomputed :
      let d := Document.read .root "<br><main><p></p></main><body class=a-b></body>".toList
      d.explicitRoot = some "body" ∧ d.nodes.any (Node.isNamed "body") = true ∧
        d.rootRoute?.map (fun r => (r.around.isEmpty, r.here.classTokens)) = some (true, ["a-b"]) := by
    decide +kernel
  obtain ⟨hroot, hany, hroute⟩ := hcomputed
  obtain ⟨r, before, top, after, hr, hnode, -⟩ :=
    rootRoute?_of_explicitRoot hroot (List.any_eq_true.mp hany)
  rw [hr, Option.map_some, Option.some.injEq, Prod.mk.injEq, List.isEmpty_iff] at hroute
  exact ⟨hroot, hany, r, hr, hnode, hroute⟩

/-- The body inside of a template is taken for the root, not the one at the top. -/
theorem rootNode?_inside_template :
    let d := Document.read .root "<template><body></body></template><body class=a-b></body>".toList
    d.refusal = none ∧ d.explicitRoot = some "body" ∧
      (d.nodes.filter (Node.isNamed "body")).map Node.classTokens = [["a-b"]] ∧
      d.rootNode?.map Node.classTokens = some [] ∧
      d.rootRoute?.map (fun r => r.around.map Node.name) = some ["template"] := by
  decide +kernel

/-! ## The only possible root -/

/-- Whether a node could be the root of a component. -/
def isCandidate (n : Node) : Bool :=
  n.isElement && !ignoredRoots.contains n.name && n.hasClass

theorem isCandidate_eq_false {n : Node} (h : isCandidate n = false) (hn : n.isElement = true) :
    n.name ∈ ignoredRoots ∨ n.hasClass = false := by
  rw [isCandidate, hn, Bool.true_and, Bool.and_eq_false_iff, Bool.not_eq_eq_eq_not, Bool.not_false,
    List.contains_iff_mem] at h
  exact h

/-- Where nothing else is found by the scan and the choice is not in doubt, the linter and the generator
go by the first element: it is the root if it has a class. -/
theorem roots_of_first {d : Document} {m : Node} (hmode : d.mode = .root)
    (hclear : d.hasAmbiguousRoot = false) (hfirst : d.rootNode? = some m) :
    (StylesheetWriter.selectRoots d =
        if m.hasClass then .ok [m] else .error .rootWithoutClass) ∧
      (m.hasClass = true → Lint.roots d = .ok [m]) ∧
      (m.hasClass = false → ∃ i, Lint.roots d = .error i ∧ i.code = .invalidBaseClass) := by
  simp only [StylesheetWriter.selectRoots, Lint.roots, hmode, hclear, hfirst]
  refine ⟨rfl, fun h => if_pos h, fun h => ?_⟩
  rw [if_neg (by simp [h])]
  exact ⟨_, rfl, rfl⟩

/-- Where the scan for tags finds neither page nor body and one element at the top could be the root of
a component, it is the root just if no element stands before it. Otherwise the first of these is the
root: one that is never the root of a component, which is then linted and generated if it has a class,
or one without a class, which is refused. -/
theorem rootNode?_of_rootCandidates {s : List Char} {n : Node}
    (hroot : (Document.read .root s).explicitRoot = none)
    (hone : (Document.read .root s).rootCandidates = [n]) :
    let d := Document.read .root s
    ∃ before after, d.nodes = before ++ n :: after ∧
      (∀ m ∈ before, m.isElement = true → m.name ∈ ignoredRoots ∨ m.hasClass = false) ∧
      (d.rootNode? = some n ↔ ∀ m ∈ before, m.isElement = false) ∧
      (StylesheetWriter.selectRoots d = .ok [n] ↔ ∀ m ∈ before, m.isElement = false) ∧
      (Lint.roots d = .ok [n] ↔ ∀ m ∈ before, m.isElement = false) ∧
      ∀ m, before.find? Node.isElement = some m → d.rootNode? = some m ∧
        (m.hasClass = true → m.name ∈ ignoredRoots ∧
          StylesheetWriter.selectRoots d = .ok [m] ∧ Lint.roots d = .ok [m]) ∧
        (m.hasClass = false → StylesheetWriter.selectRoots d = .error .rootWithoutClass ∧
          ∃ i, Lint.roots d = .error i ∧ i.code = .invalidBaseClass) := by
  intro d
  have hfilter : d.nodes.filter isCandidate = [n] := hone
  obtain ⟨before, after, hnodes, hbefore, hn, -⟩ := List.filter_eq_cons_iff.mp hfilter
  simp only [Bool.not_eq_true] at hbefore
  have hnElement : n.isElement = true := by
    rw [isCandidate, Bool.and_eq_true, Bool.and_eq_true] at hn
    exact hn.1.1
  have hnClass : n.hasClass = true := by
    rw [isCandidate, Bool.and_eq_true] at hn
    exact hn.2
  have hmode : d.mode = .root := mode_of_read .root s
  have hclear : d.hasAmbiguousRoot = false := by
    rw [hasAmbiguousRoot, show d.rootCandidates = [n] from hone]
    simp
  have hnode : d.rootNode? = (before.find? Node.isElement).or (some n) := by
    have hfirst : (n :: after).find? Node.isElement = some n := List.find?_cons_of_pos hnElement
    rw [rootNode?, show d.explicitRoot = none from hroot, hnodes, Option.bind_none,
      List.find?_append, hfirst]
  refine ⟨before, after, hnodes, fun m hm => isCandidate_eq_false (hbefore m hm), ?_⟩
  cases hfirst : before.find? Node.isElement with
  | none =>
    have hnone : ∀ m ∈ before, m.isElement = false := by simpa using hfirst
    rw [hfirst, Option.none_or] at hnode
    obtain ⟨hselect, hlint, -⟩ := roots_of_first hmode hclear hnode
    rw [if_pos hnClass] at hselect
    exact ⟨iff_of_true hnode hnone, iff_of_true hselect hnone, iff_of_true (hlint hnClass) hnone,
      fun m hm => by cases hm⟩
  | some m =>
    have hmem := List.mem_of_find?_eq_some hfirst
    have hmElement := List.find?_some hfirst
    have hsome : ¬ ∀ m ∈ before, m.isElement = false := fun hnone => by
      rw [hnone m hmem] at hmElement
      cases hmElement
    -- what stands before could not be the root, so it is another element
    have hne : m ≠ n := fun heq => by
      rw [← heq, hbefore m hmem] at hn
      cases hn
    rw [hfirst, Option.some_or] at hnode
    obtain ⟨hselect, hlint, hrefused⟩ := roots_of_first hmode hclear hnode
    refine ⟨iff_of_false ?_ hsome, iff_of_false ?_ hsome, iff_of_false ?_ hsome, fun m' hm' => ?_⟩
    · rw [hnode, Option.some.injEq]
      exact hne
    · rw [hselect]
      split <;> simp [hne]
    · cases hclass : m.hasClass with
      | true =>
        rw [hlint hclass]
        simp [hne]
      | false =>
        obtain ⟨i, hi, -⟩ := hrefused hclass
        rw [hi]
        simp
    · cases hm'
      refine ⟨hnode, fun hclass => ⟨?_, ?_, hlint hclass⟩, fun hclass => ⟨?_, hrefused hclass⟩⟩
      · refine (isCandidate_eq_false (hbefore m hmem) hmElement).resolve_right ?_
        rw [hclass]
        simp
      · rw [hselect, if_pos hclass]
      · rw [hselect, hclass]
        rfl

/-- A section behind a comment and text, with an element without a class behind it. -/
theorem rootNode?_of_lone_section :
    let d := Document.read .root "<!-- a -->b<section class=a-b></section><p></p>".toList
    d.explicitRoot = none ∧ ∃ n, d.rootCandidates = [n] ∧ n.name = "section" ∧
      d.rootNode? = some n ∧ StylesheetWriter.selectRoots d = .ok [n] ∧ Lint.roots d = .ok [n] := by
  have hcomputed :
      let d := Document.read .root "<!-- a -->b<section class=a-b></section><p></p>".toList
      d.explicitRoot = none ∧ d.rootCandidates.map Node.name = ["section"] ∧
        d.rootNode?.map (fun m => (m.name, m.hasClass)) = some ("section", true) := by
    decide +kernel
  obtain ⟨hroot, hcandidates, hcalled⟩ := hcomputed
  obtain ⟨n, hone, hn⟩ := List.map_eq_singleton_iff.mp hcandidates
  obtain ⟨before, after, -, -, hnode, hselect, hlint, hother⟩ := rootNode?_of_rootCandidates hroot hone
  have hnone : ∀ m ∈ before, m.isElement = false := by
    cases hfirst : before.find? Node.isElement with
    | none => simpa using hfirst
    | some m =>
      -- an element before it would be the root, and would not be called so
      obtain ⟨hm, hclass, -⟩ := hother m hfirst
      rw [hm, Option.map_some, Option.some.injEq, Prod.mk.injEq] at hcalled
      have hignored := (hclass hcalled.2).1
      rw [hcalled.1] at hignored
      exact absurd hignored (by decide)
  exact ⟨hroot, n, hone, hn, hnode.mpr hnone, hselect.mpr hnone, hlint.mpr hnone⟩

/-- A template with a class is linted and generated in place of the section behind it. -/
theorem rootNode?_of_classed_template :
    let d := Document.read .root "<template class=x></template><section class=a-b></section>".toList
    d.refusal = none ∧ d.explicitRoot = none ∧ d.rootCandidates.map Node.name = ["section"] ∧
      d.rootNode?.map Node.name = some "template" ∧
      (StylesheetWriter.selectRoots d).toOption.map (List.map Node.name) = some ["template"] ∧
      (Lint.roots d).toOption.map (List.map Node.name) = some ["template"] := by
  decide +kernel

end Document

end BlockMarkup.Markup
