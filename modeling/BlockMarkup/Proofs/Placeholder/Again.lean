import BlockMarkup.Proofs.Markup.Written
import BlockMarkup.Proofs.Placeholder.Tree

/-! # Formatting trees again

Formatting a formatted tree. A decision that is taken a second time changes nothing, unless an
Element has become a Block under a name that the rules do not take for one
(`classes_decideInner_again`); so a tree stays as it is exactly if no such Element has content
(`changes_formatRoots_again`). What is decided depends on the classes of the elements only, not on
the rest of their attributes (`changes_formatRoots_mapAttributes`).
-/

namespace BlockMarkup

open Markup (Node Attributes)
open Text (IsWord)

namespace Markup.Node

/-- What holds of all ways in a tree holds of its root and of the ways through its content. -/
theorem forall_routes_element {name : String} {as : Attributes} {ns : List Node}
    {P : Route → Prop} : (∀ r ∈ (element name as ns).routes, P r) ↔
      P ⟨[], .element name as ns⟩ ∧ ∀ r ∈ routesIn ns, P (r.under (.element name as ns)) := by
  constructor
  · intro h
    exact ⟨h _ (mem_routes_element.mpr (Or.inl rfl)),
      fun r hr => h _ (mem_routes_element.mpr (Or.inr ⟨r, hr, rfl⟩))⟩
  · rintro ⟨hroot, hunder⟩ r hr
    rcases mem_routes_element.mp hr with rfl | ⟨r', hr', rfl⟩
    · exact hroot
    · exact hunder r' hr'

theorem forall_routesIn_cons {n : Node} {ns : List Node} {P : Route → Prop} :
    (∀ r ∈ routesIn (n :: ns), P r) ↔ (∀ r ∈ n.routes, P r) ∧ ∀ r ∈ routesIn ns, P r := by
  rw [routesIn]
  exact List.forall_mem_append

end Markup.Node

namespace FormatOptions

variable {o : FormatOptions} {classes : List String} {hasContent : Bool} {depth : Nat}
  {as : Attributes} {ns : List Node}

/-! ## Decisions -/

theorem classes_decideInner_of_fits (h : o.Fits (classes.headD "") hasContent) :
    (o.decideInner classes hasContent).classes = none := by
  unfold decideInner
  dsimp only
  rcases h.2 with hblock | helement
  · rw [hblock]
  · cases hasContent with
    | false => rw [helement]
    | true =>
      have hblock := h.1 rfl
      rw [helement] at hblock
      cases hblock

/-- A class that is no Block does not stay first on an element with content. -/
theorem classes_decideInner_of_ne_block (ho : o.Consistent)
    (h : o.naming.classify (classes.headD "") ≠ .block) :
    (o.decideInner classes true).classes ≠ none := by
  unfold decideInner
  dsimp only
  split
  · contradiction
  · exact Option.some_ne_none _
  · contradiction
  · -- the placeholder is a Block, so it does not come first yet
    rw [Placeholder.putFirst?, if_neg]
    · exact Option.some_ne_none _
    · intro hhead
      refine h ?_
      rw [List.headD_eq_head?_getD, hhead]
      exact ho.block
  · contradiction

/-- A decision that is taken again changes nothing, unless there is content and the first class is
an Element whose Block is no Block. -/
theorem classes_decideInner_again (ho : o.Consistent) :
    (o.decideInner ((o.decideInner classes hasContent).result classes) hasContent).classes = none ↔
      (hasContent = true → o.Promotes (classes.headD "")) := by
  constructor
  · rintro hnone rfl hkind
    have hresult : ((o.decideInner classes true).result classes).headD "" =
        Placeholder.blockOf o.naming (classes.headD "") := by
      unfold decideInner Decision.result
      dsimp only
      rw [hkind]
      rfl
    by_contra hblock
    rw [← hresult] at hblock
    exact classes_decideInner_of_ne_block ho hblock hnone
  · intro hpromotes
    cases hasContent with
    | true => exact classes_decideInner_of_fits (kind_decideInner ho (hpromotes rfl))
    | false =>
      -- without content the base is not promoted, whatever its Block would be
      refine classes_decideInner_of_fits ⟨by simp, ?_⟩
      unfold decideInner Decision.result
      dsimp only
      split
      · rename_i hkind
        exact Or.inl hkind
      · contradiction
      · rename_i hkind _
        exact Or.inr hkind
      · contradiction
      · have hhead : (Placeholder.putFirst (Placeholder.element o.naming) classes).headD "" =
            Placeholder.element o.naming := Placeholder.headD_putFirst
        exact Or.inr (hhead.symm ▸ ho.element)

theorem classes_decideRoot_again (ho : o.Consistent) :
    (o.decideRoot ((o.decideRoot classes).result classes)).classes = none := by
  have hblock : o.naming.classify (((o.decideRoot classes).result classes).headD "") = .block :=
    kind_decideRoot ho
  rw [decideRoot.eq_def o ((o.decideRoot classes).result classes), hblock]

theorem changes_eq_zero {d : Decision} : d.changes = 0 ↔ d.classes = none := by
  rw [Decision.changes]
  cases d.classes <;> simp

/-! ## Counting -/

theorem formatContent_of_no_elements (h : ns.any Node.isElement = false) :
    o.formatContent depth ns = (ns, 0) := by
  induction ns with
  | nil => rfl
  | cons n rest ih =>
    rw [List.any_cons, Bool.or_eq_false_iff] at h
    cases n with
    | element name as ns => cases h.1
    | leaf kind s => rw [formatContent_cons, ih h.2]; rfl

/-- Content that is not looked at has no elements, so only the depth limit counts. -/
theorem contentAt_eq : o.contentAt depth as ns =
    if depth + 1 < maxDepth then o.formatContent (depth + 1) ns else (ns, 0) := by
  rw [contentAt]
  by_cases hdepth : depth + 1 < maxDepth
  · rw [if_pos hdepth]
    split
    · rfl
    · rename_i henters
      cases hcontent : ns.any Node.isElement with
      | false => rw [formatContent_of_no_elements hcontent]
      | true =>
        refine absurd ⟨?_, hdepth⟩ henters
        rw [decisionAt, hcontent]
        exact descends_decideInner
  · rw [if_neg hdepth, if_neg fun h => hdepth h.2]

/-- An element whose content asks for a Block that its first class cannot become. -/
def Unsettled (o : FormatOptions) (n : Node) : Prop :=
  n.children.any Node.isElement = true ∧ ¬ o.Promotes (o.baseOf n)

mutual

/-- Formatting an element for the second time changes something exactly if it or an element in its
content, above the depth limit, is unsettled. -/
theorem changes_formatInner_again (ho : o.Consistent) (depth : Nat) (hdepth : depth < maxDepth) :
    ∀ n : Node, (o.formatInner depth (o.formatInner depth n).1).2 = 0 ↔
      ∀ r ∈ n.routes, depth + r.around.length < maxDepth → ¬ o.Unsettled r.here
  | .leaf kind s => by
    simp [formatInner_leaf, Node.routes]
  | .element name as ns => by
    have hself : (o.decisionAt (o.applyClasses as (o.decisionAt as ns))
        (o.contentAt depth as ns).1).changes = 0 ↔ ¬ o.Unsettled (.element name as ns) := by
      rw [changes_eq_zero, decisionAt, any_isElement_contentAt, decisionAt,
        classesOf_applyClasses (writable_decideInner isWord_of_mem_classesOf),
        classes_decideInner_again ho, Unsettled, not_and, not_not]
      rfl
    have hcontent : (o.contentAt depth (o.applyClasses as (o.decisionAt as ns))
        (o.contentAt depth as ns).1).2 = 0 ↔
          ∀ r ∈ Node.routesIn ns, depth + (r.around.length + 1) < maxDepth →
            ¬ o.Unsettled r.here := by
      rw [contentAt_eq, contentAt_eq]
      by_cases hnext : depth + 1 < maxDepth
      · rw [if_pos hnext, if_pos hnext, changes_formatContent_again ho (depth + 1) hnext ns]
        simp only [Nat.add_assoc, Nat.add_comm 1]
      · rw [if_neg hnext, if_neg hnext]
        exact ⟨fun _ r _ hlt => by omega, fun _ => rfl⟩
    rw [formatInner_element, formatInner_element, Node.forall_routes_element]
    refine Nat.add_eq_zero_iff.trans (and_congr (hself.trans ?_) hcontent)
    exact ⟨fun h _ => h, fun h => h hdepth⟩

/-- The same for content. -/
theorem changes_formatContent_again (ho : o.Consistent) (depth : Nat) (hdepth : depth < maxDepth) :
    ∀ ns : List Node, (o.formatContent depth (o.formatContent depth ns).1).2 = 0 ↔
      ∀ r ∈ Node.routesIn ns, depth + r.around.length < maxDepth → ¬ o.Unsettled r.here
  | [] => by
    simp [formatContent, Node.routesIn]
  | n :: rest => by
    rw [formatContent_cons, formatContent_cons, Node.forall_routesIn_cons,
      ← changes_formatInner_again ho depth hdepth n,
      ← changes_formatContent_again ho depth hdepth rest]
    exact Nat.add_eq_zero_iff

end

theorem formatRoots_cons {n : Node} :
    o.formatRoots (n :: ns) =
      ((o.formatRoot n).1 :: (o.formatRoots ns).1, (o.formatRoot n).2 + (o.formatRoots ns).2) := rfl

theorem changes_formatRoot_again (ho : o.Consistent) (root : Node) :
    (o.formatRoot (o.formatRoot root).1).2 = 0 ↔
      ∀ r ∈ root.routes, 0 < r.around.length → r.around.length < maxDepth →
        ¬ o.Unsettled r.here := by
  cases root with
  | leaf kind s => simp [formatRoot, Node.routes]
  | element name as ns =>
    have hroot : (o.decideRoot (o.classesOf (o.applyClasses as
        (o.decideRoot (o.classesOf as))))).changes = 0 := by
      rw [changes_eq_zero, classesOf_applyClasses (writable_decideRoot isWord_of_mem_classesOf),
        classes_decideRoot_again ho]
    have hcontent : (o.formatContent 1 (o.formatContent 1 ns).1).2 = 0 ↔
        ∀ r ∈ Node.routesIn ns, r.around.length + 1 < maxDepth → ¬ o.Unsettled r.here := by
      rw [changes_formatContent_again ho 1 (by decide) ns]
      simp only [Nat.add_comm 1]
    rw [formatRoot_element, formatRoot_element, Node.forall_routes_element, hroot, Nat.zero_add,
      hcontent]
    constructor
    · intro h
      exact ⟨fun hpos => absurd hpos (Nat.lt_irrefl 0), fun r hr _ hlt => h r hr hlt⟩
    · intro h r hr hlt
      exact h.2 r hr (Nat.succ_pos _) hlt

/-- Formatting trees for the second time changes something exactly if an element below a root and
above the depth limit is unsettled. -/
theorem changes_formatRoots_again (ho : o.Consistent) (roots : List Node) :
    (o.formatRoots (o.formatRoots roots).1).2 = 0 ↔
      ∀ r ∈ Node.routesIn roots, 0 < r.around.length → r.around.length < maxDepth →
        ¬ o.Unsettled r.here := by
  induction roots with
  | nil => simp [formatRoots, Node.routesIn]
  | cons root roots ih =>
    rw [formatRoots_cons, formatRoots_cons, Node.forall_routesIn_cons,
      ← changes_formatRoot_again ho root, ← ih]
    exact Nat.add_eq_zero_iff

/-! ## Trees that stay as they are -/

theorem applyClasses_of_none {d : Decision} (h : d.classes = none) : o.applyClasses as d = as := by
  rw [applyClasses, h]

mutual

theorem formatInner_of_no_change (depth : Nat) : ∀ n : Node,
    (o.formatInner depth n).2 = 0 → (o.formatInner depth n).1 = n
  | .leaf .. => fun _ => rfl
  | .element name as ns => by
    intro h
    rw [formatInner_element] at h ⊢
    obtain ⟨hself, hcontent⟩ := Nat.add_eq_zero_iff.mp h
    rw [contentAt_eq] at hcontent ⊢
    rw [applyClasses_of_none (changes_eq_zero.mp hself)]
    split
    · rename_i hnext
      rw [if_pos hnext] at hcontent
      rw [formatContent_of_no_change (depth + 1) ns hcontent]
    · rfl

theorem formatContent_of_no_change (depth : Nat) : ∀ ns : List Node,
    (o.formatContent depth ns).2 = 0 → (o.formatContent depth ns).1 = ns
  | [] => fun _ => rfl
  | n :: rest => by
    intro h
    rw [formatContent_cons] at h ⊢
    obtain ⟨hn, hrest⟩ := Nat.add_eq_zero_iff.mp h
    rw [formatInner_of_no_change depth n hn, formatContent_of_no_change depth rest hrest]

end

theorem formatRoot_of_no_change {root : Node} (h : (o.formatRoot root).2 = 0) :
    (o.formatRoot root).1 = root := by
  cases root with
  | leaf kind s => rfl
  | element name as ns =>
    rw [formatRoot_element] at h ⊢
    obtain ⟨hself, hcontent⟩ := Nat.add_eq_zero_iff.mp h
    rw [applyClasses_of_none (changes_eq_zero.mp hself), formatContent_of_no_change 1 ns hcontent]

/-- Where no change is counted, the trees are the given ones. -/
theorem formatRoots_of_no_change {roots : List Node} (h : (o.formatRoots roots).2 = 0) :
    (o.formatRoots roots).1 = roots := by
  induction roots with
  | nil => rfl
  | cons root roots ih =>
    rw [formatRoots_cons] at h ⊢
    obtain ⟨hroot, hroots⟩ := Nat.add_eq_zero_iff.mp h
    rw [formatRoot_of_no_change hroot, ih hroots]

theorem formatRoots_of_no_elements {roots : List Node} (h : roots.any Node.isElement = false) :
    o.formatRoots roots = (roots, 0) := by
  induction roots with
  | nil => rfl
  | cons root roots ih =>
    rw [List.any_cons, Bool.or_eq_false_iff] at h
    cases root with
    | element name as ns => cases h.1
    | leaf kind s =>
      rw [formatRoots_cons, ih h.2]
      rfl

/-! ## Trees with other attributes -/

/-- The elements have the same classes when their attributes are replaced. -/
def KeepsClasses (o : FormatOptions) (g : String → Attributes → Attributes) (ns : List Node) :
    Prop :=
  ∀ r ∈ Node.routesIn ns,
    o.classesOf (g r.here.name r.here.attributes) = o.classesOf r.here.attributes

theorem any_isElement_mapAttributesIn {g : String → Attributes → Attributes} :
    (Node.mapAttributesIn g ns).any Node.isElement = ns.any Node.isElement := by
  induction ns with
  | nil => rfl
  | cons n rest ih =>
    rw [Node.mapAttributesIn, List.any_cons, List.any_cons, ih]
    cases n <;> rfl

mutual

theorem changes_formatInner_mapAttributes {g : String → Attributes → Attributes} (depth : Nat) :
    ∀ n : Node,
      (∀ r ∈ n.routes,
        o.classesOf (g r.here.name r.here.attributes) = o.classesOf r.here.attributes) →
      (o.formatInner depth (n.mapAttributes g)).2 = (o.formatInner depth n).2
  | .leaf .. => fun _ => rfl
  | .element name as ns => by
    intro h
    rw [Node.forall_routes_element] at h
    have hself : o.classesOf (g name as) = o.classesOf as := h.1
    rw [Node.mapAttributes, formatInner_element, formatInner_element, decisionAt, decisionAt,
      any_isElement_mapAttributesIn, hself, contentAt_eq, contentAt_eq]
    dsimp only
    split
    · rw [changes_formatContent_mapAttributes (depth + 1) ns fun r hr => h.2 r hr]
    · rfl

theorem changes_formatContent_mapAttributes {g : String → Attributes → Attributes} (depth : Nat) :
    ∀ ns : List Node, o.KeepsClasses g ns →
      (o.formatContent depth (Node.mapAttributesIn g ns)).2 = (o.formatContent depth ns).2
  | [] => fun _ => rfl
  | n :: rest => by
    intro h
    rw [KeepsClasses, Node.forall_routesIn_cons] at h
    rw [Node.mapAttributesIn, formatContent_cons, formatContent_cons,
      changes_formatInner_mapAttributes depth n h.1,
      changes_formatContent_mapAttributes depth rest h.2]

end

/-- What is changed depends on the classes of the elements and on nothing else of their
attributes. -/
theorem changes_formatRoots_mapAttributes {g : String → Attributes → Attributes} {roots : List Node}
    (h : o.KeepsClasses g roots) :
    (o.formatRoots (Node.mapAttributesIn g roots)).2 = (o.formatRoots roots).2 := by
  induction roots with
  | nil => rfl
  | cons root roots ih =>
    rw [KeepsClasses, Node.forall_routesIn_cons] at h
    rw [Node.mapAttributesIn, formatRoots_cons, formatRoots_cons, ih h.2]
    cases root with
    | leaf kind s => rfl
    | element name as ns =>
      have hroot := Node.forall_routes_element.mp h.1
      have hself : o.classesOf (g name as) = o.classesOf as := hroot.1
      rw [Node.mapAttributes, formatRoot_element, formatRoot_element, hself,
        changes_formatContent_mapAttributes 1 ns fun r hr => hroot.2 r hr]

end FormatOptions

end BlockMarkup
