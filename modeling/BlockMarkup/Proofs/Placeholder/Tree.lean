import BlockMarkup.Proofs.Component.Route
import BlockMarkup.Proofs.Placeholder.Classes

/-! # Formatted trees

Formatting works on every element by itself: content is formatted node by node
(`formatContent_fst`), and the attributes of an element in the formatted tree are those of an element
of the given one after a decision about it (`exists_origin`). Above the depth limit every element
has a first class of the kind that its content asks for (`fits_formatRoot`).
-/

namespace BlockMarkup

open Markup (Node Attributes ClassAttribute)

/-! ## Content -/

namespace Markup.Node

theorem routesIn_eq_nil {ns : List Node} (h : ns.any isElement = false) : routesIn ns = [] := by
  induction ns with
  | nil => rfl
  | cons n rest ih =>
    rw [List.any_cons, Bool.or_eq_false_iff] at h
    cases n with
    | element name attributes children => cases h.1
    | leaf kind s => rw [routesIn, routes, ih h.2, List.append_nil]

theorem mem_routes_element {name : String} {attributes : Attributes} {children : List Node}
    {r : Route} : r ∈ (element name attributes children).routes ↔
      r = ⟨[], .element name attributes children⟩ ∨
        ∃ r' ∈ routesIn children, r'.under (.element name attributes children) = r := by
  rw [routes, List.mem_cons, List.mem_map]

/-- There is a way to every element of a tree, beginning with its root. -/
theorem self_mem_routes {n : Node} (h : n.isElement = true) : ⟨[], n⟩ ∈ n.routes := by
  cases n with
  | element name attributes children => exact mem_routes_element.mpr (Or.inl rfl)
  | leaf kind s => cases h

theorem isElement_of_mem_routes {n : Node} {r : Route} (h : r ∈ n.routes) :
    n.isElement = true := by
  cases n with
  | element name attributes children => rfl
  | leaf kind s => simp [routes] at h

mutual

/-- The elements on the way to another one have elements in their content. -/
theorem any_isElement_of_mem_around : ∀ (n : Node) (r : Route), r ∈ n.routes →
    ∀ e ∈ r.around, e.children.any isElement = true
  | .leaf .., r => by
    intro h
    simp [routes] at h
  | .element name attributes children, r => by
    intro h e he
    rcases mem_routes_element.mp h with rfl | ⟨r', hr', rfl⟩
    · cases he
    · rcases List.mem_cons.mp he with rfl | he
      · rcases mem_routesIn.mp hr' with ⟨m, hm, hmr⟩
        exact List.any_eq_true.mpr ⟨m, hm, isElement_of_mem_routes hmr⟩
      · exact any_isElement_of_mem_aroundIn children r' hr' e he

theorem any_isElement_of_mem_aroundIn : ∀ (ns : List Node) (r : Route), r ∈ routesIn ns →
    ∀ e ∈ r.around, e.children.any isElement = true
  | [], r => by
    intro h
    simp [routesIn] at h
  | n :: rest, r => by
    intro h
    rw [routesIn, List.mem_append] at h
    rcases h with h | h
    · exact any_isElement_of_mem_around n r h
    · exact any_isElement_of_mem_aroundIn rest r h

end

end Markup.Node

namespace FormatOptions

variable {o : FormatOptions} {depth : Nat} {name : String} {as : Attributes} {ns : List Node}

/-! ## Element by element -/

/-- The decision about an element below a root. -/
def decisionAt (o : FormatOptions) (as : Attributes) (ns : List Node) : Decision :=
  o.decideInner (o.classesOf as) (ns.any Node.isElement)

/-- The content of an element below a root is formatted. -/
def Enters (o : FormatOptions) (depth : Nat) (as : Attributes) (ns : List Node) : Prop :=
  (o.decisionAt as ns).descends = true ∧ depth + 1 < maxDepth

instance (depth : Nat) (as : Attributes) (ns : List Node) : Decidable (o.Enters depth as ns) :=
  inferInstanceAs (Decidable (_ ∧ _))

/-- The content of an element below a root, formatted if it is looked at. -/
def contentAt (o : FormatOptions) (depth : Nat) (as : Attributes) (ns : List Node) :
    List Node × Nat :=
  if o.Enters depth as ns then o.formatContent (depth + 1) ns else (ns, 0)

theorem formatInner_leaf {kind : Markup.LeafKind} {s : List Char} :
    o.formatInner depth (.leaf kind s) = (.leaf kind s, 0) := rfl

theorem formatInner_element :
    o.formatInner depth (.element name as ns) =
      (.element name (o.applyClasses as (o.decisionAt as ns)) (o.contentAt depth as ns).1,
        (o.decisionAt as ns).changes + (o.contentAt depth as ns).2) := by
  have henters : ((o.decisionAt as ns).descends && decide (depth + 1 < maxDepth)) = true ↔
      o.Enters depth as ns := by
    rw [Bool.and_eq_true, decide_eq_true_eq, Enters]
  have hcontent : (if (o.decisionAt as ns).descends && decide (depth + 1 < maxDepth) then
      o.formatContent (depth + 1) ns else (ns, 0)) = o.contentAt depth as ns :=
    if_congr henters rfl rfl
  unfold formatInner
  rw [← hcontent]
  rfl

theorem formatContent_cons {n : Node} :
    o.formatContent depth (n :: ns) =
      ((o.formatInner depth n).1 :: (o.formatContent depth ns).1,
        (o.formatInner depth n).2 + (o.formatContent depth ns).2) := rfl

theorem formatRoot_element :
    o.formatRoot (.element name as ns) =
      (.element name (o.applyClasses as (o.decideRoot (o.classesOf as))) (o.formatContent 1 ns).1,
        (o.decideRoot (o.classesOf as)).changes + (o.formatContent 1 ns).2) := rfl

/-- Content is formatted node by node. -/
theorem formatContent_fst :
    (o.formatContent depth ns).1 = ns.map fun n => (o.formatInner depth n).1 := by
  induction ns with
  | nil => rfl
  | cons n rest ih => rw [formatContent_cons, List.map_cons, ← ih]

theorem isElement_formatInner {n : Node} :
    (o.formatInner depth n).1.isElement = n.isElement := by
  cases n with
  | element name as ns => rw [formatInner_element]; rfl
  | leaf kind s => rfl

theorem any_isElement_formatContent :
    (o.formatContent depth ns).1.any Node.isElement = ns.any Node.isElement := by
  rw [formatContent_fst, List.any_map]
  exact congrArg (ns.any ·) (funext fun n => isElement_formatInner)

/-- Formatting changes no answer to the question whether there is content. -/
theorem any_isElement_contentAt :
    (o.contentAt depth as ns).1.any Node.isElement = ns.any Node.isElement := by
  rw [contentAt]
  split
  · exact any_isElement_formatContent
  · rfl

/-- An element that is formatted with content has its content looked at. -/
theorem descends_decideInner {classes : List String} :
    (o.decideInner classes true).descends = true := by
  unfold decideInner
  dsimp only
  split <;> simp_all

/-- Where content is left alone above the depth limit, there are no elements in it. -/
theorem routesIn_of_not_enters (h : ¬ o.Enters depth as ns) (hdepth : depth + 1 < maxDepth) :
    Node.routesIn ns = [] := by
  cases hcontent : ns.any Node.isElement with
  | false => exact Node.routesIn_eq_nil hcontent
  | true =>
    refine absurd ⟨?_, hdepth⟩ h
    rw [decisionAt, hcontent]
    exact descends_decideInner

/-! ## Where attributes come from -/

mutual

theorem exists_origin_inner (depth : Nat) : ∀ (n : Node) (r : Route),
    r ∈ (o.formatInner depth n).1.routes →
      ∃ r' ∈ n.routes, ∃ d, r.here.attributes = o.applyClasses r'.here.attributes d
  | .leaf .., r => by
    intro h
    simp [formatInner_leaf, Node.routes] at h
  | .element name as ns, r => by
    intro h
    rw [formatInner_element] at h
    rcases Node.mem_routes_element.mp h with rfl | ⟨s, hs, rfl⟩
    · exact ⟨_, Node.mem_routes_element.mpr (Or.inl rfl), _, rfl⟩
    · obtain ⟨r', hr', d, hd⟩ : ∃ r' ∈ Node.routesIn ns, ∃ d,
          s.here.attributes = o.applyClasses r'.here.attributes d := by
        rw [contentAt] at hs
        split at hs
        · exact exists_origin_content (depth + 1) ns s hs
        · exact ⟨s, hs, ⟨none, false⟩, rfl⟩
      exact ⟨_, Node.mem_routes_element.mpr (Or.inr ⟨r', hr', rfl⟩), d, hd⟩

theorem exists_origin_content (depth : Nat) : ∀ (ns : List Node) (r : Route),
    r ∈ Node.routesIn (o.formatContent depth ns).1 →
      ∃ r' ∈ Node.routesIn ns, ∃ d, r.here.attributes = o.applyClasses r'.here.attributes d
  | [], r => by
    intro h
    cases h
  | n :: rest, r => by
    intro h
    rw [formatContent_cons, Node.routesIn, List.mem_append] at h
    simp only [Node.routesIn, List.mem_append]
    rcases h with h | h
    · rcases exists_origin_inner depth n r h with ⟨r', hr', hd⟩
      exact ⟨r', Or.inl hr', hd⟩
    · rcases exists_origin_content depth rest r h with ⟨r', hr', hd⟩
      exact ⟨r', Or.inr hr', hd⟩

end

/-- Every element of a formatted tree has the attributes of one of the given tree after some
decision. -/
theorem exists_origin {root : Node} {r : Route} (h : r ∈ (o.formatRoot root).1.routes) :
    ∃ r' ∈ root.routes, ∃ d, r.here.attributes = o.applyClasses r'.here.attributes d := by
  cases root with
  | leaf kind s => simp [formatRoot, Node.routes] at h
  | element name as ns =>
    rw [formatRoot_element] at h
    rcases Node.mem_routes_element.mp h with rfl | ⟨s, hs, rfl⟩
    · exact ⟨_, Node.mem_routes_element.mpr (Or.inl rfl), _, rfl⟩
    · rcases exists_origin_content 1 ns s hs with ⟨r', hr', d, hd⟩
      exact ⟨_, Node.mem_routes_element.mpr (Or.inr ⟨r', hr', rfl⟩), d, hd⟩

/-! ## First classes -/

/-- The first class of an element as it is read for formatting. -/
def baseOf (o : FormatOptions) (n : Node) : String := (o.classesOf n.attributes).headD ""

/-- The first class of an element is of the kind that its content asks for. -/
def FitsAt (o : FormatOptions) (n : Node) : Prop :=
  o.Fits (o.baseOf n) (n.children.any Node.isElement)

mutual

theorem fits_formatInner (ho : o.Consistent) (depth : Nat) : ∀ n : Node,
    (∀ r ∈ n.routes, o.Promotes (o.baseOf r.here)) →
      ∀ r ∈ (o.formatInner depth n).1.routes, depth + r.around.length < maxDepth → o.FitsAt r.here
  | .leaf .. => by
    intro _ r h
    simp [formatInner_leaf, Node.routes] at h
  | .element name as ns => by
    intro hpromotes r h hdepth
    rw [formatInner_element] at h
    rcases Node.mem_routes_element.mp h with rfl | ⟨s, hs, rfl⟩
    · have hbase := hpromotes _ (Node.mem_routes_element.mpr (Or.inl rfl))
      rw [FitsAt, baseOf]
      dsimp only [Node.attributes, Node.children]
      rw [any_isElement_contentAt, decisionAt,
        classesOf_applyClasses (writable_decideInner isWord_of_mem_classesOf)]
      exact kind_decideInner ho hbase
    · have hlength : depth + 1 + s.around.length < maxDepth := by
        rw [Route.under, List.length_cons] at hdepth
        omega
      rw [contentAt] at hs
      split at hs
      · refine fits_formatContent ho (depth + 1) ns (fun r' hr' => ?_) s hs hlength
        exact hpromotes (r'.under _) (Node.mem_routes_element.mpr (Or.inr ⟨r', hr', rfl⟩))
      · rename_i henters
        rw [routesIn_of_not_enters henters (by omega)] at hs
        cases hs

theorem fits_formatContent (ho : o.Consistent) (depth : Nat) : ∀ ns : List Node,
    (∀ r ∈ Node.routesIn ns, o.Promotes (o.baseOf r.here)) →
      ∀ r ∈ Node.routesIn (o.formatContent depth ns).1,
        depth + r.around.length < maxDepth → o.FitsAt r.here
  | [] => by
    intro _ r h
    cases h
  | n :: rest => by
    intro hpromotes r h hdepth
    rw [formatContent_cons, Node.routesIn, List.mem_append] at h
    simp only [Node.routesIn, List.mem_append] at hpromotes
    rcases h with h | h
    · exact fits_formatInner ho depth n (fun r' hr' => hpromotes r' (Or.inl hr')) r h hdepth
    · exact fits_formatContent ho depth rest (fun r' hr' => hpromotes r' (Or.inr hr')) r h hdepth

end

/-- The root becomes a Block. -/
theorem block_formatRoot (ho : o.Consistent) {root : Node} (hroot : root.isElement = true) :
    o.naming.classify (o.baseOf (o.formatRoot root).1) = .block := by
  cases root with
  | leaf kind s => cases hroot
  | element name as ns =>
    rw [formatRoot_element, baseOf]
    dsimp only [Node.attributes]
    rw [classesOf_applyClasses (writable_decideRoot isWord_of_mem_classesOf)]
    exact kind_decideRoot ho

/-- In a formatted tree, every element above the depth limit has a first class of the kind that its
content asks for. -/
theorem fits_formatRoot (ho : o.Consistent) {root : Node}
    (hpromotes : ∀ r ∈ root.routes, o.Promotes (o.baseOf r.here)) {r : Route}
    (hr : r ∈ (o.formatRoot root).1.routes) (hdepth : r.around.length < maxDepth) :
    o.FitsAt r.here := by
  cases root with
  | leaf kind s => simp [formatRoot, Node.routes] at hr
  | element name as ns =>
    have helement : (Node.element name as ns).isElement = true := rfl
    have hroot := block_formatRoot ho helement
    rw [formatRoot_element] at hr hroot
    rcases Node.mem_routes_element.mp hr with rfl | ⟨s, hs, rfl⟩
    · exact fits_of_block hroot
    · rw [Route.under, List.length_cons] at hdepth
      refine fits_formatContent ho 1 ns (fun r' hr' => ?_) s hs (by omega)
      exact hpromotes (r'.under _) (Node.mem_routes_element.mpr (Or.inr ⟨r', hr', rfl⟩))

end FormatOptions

end BlockMarkup
