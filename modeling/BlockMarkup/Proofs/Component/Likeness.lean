import BlockMarkup.Proofs.Component.Marks
import BlockMarkup.Proofs.Component.PathTrie

/-! # Trees made from like elements

Of an element, building looks at its name and its attributes, and of where it stands at its chain
alone. `Node.bare` is an element without its content, and two documents whose bare elements stand in
the same chains, in the same order, are made into the same trees; how much of that is needed depends
on what is asked of the trees.

`Made` says exactly what a node is made from its own elements, and `Corresponds K` relates two trees
that have the same classes in the same places and nodes related by `K`. Whenever a relation between
occurrences goes down into every class, it puts the trees that stand for them in correspondence
(`Gathers.corresponds`).
-/

namespace BlockMarkup

open Markup (Node)
open Component (base)
open Occurrences

/-! ## Elements without content -/

/-- The element without its content. -/
def Markup.Node.bare (n : Node) : Node := .element n.name n.attributes []

@[simp] theorem Markup.Node.bare_name (n : Node) : n.bare.name = n.name := rfl

@[simp] theorem Markup.Node.bare_attributes (n : Node) : n.bare.attributes = n.attributes := rfl

@[simp] theorem Markup.Node.bare_classTokens (n : Node) : n.bare.classTokens = n.classTokens := rfl

namespace Occurrences

/-- The occurrences without the content of the elements. -/
def bare (os : Occurrences) : Occurrences := os.map fun p => (p.1, p.2.bare)

theorem here_bare (os : Occurrences) : here (bare os) = (here os).map Node.bare := by
  rw [here, here, bare, List.filter_map, List.map_map, List.map_map]
  rfl

theorem heads_bare (os : Occurrences) : heads (bare os) = heads os := by
  rw [heads, heads, bare, List.filterMap_map]
  rfl

theorem inside_bare (b : String) (os : Occurrences) : inside b (bare os) = bare (inside b os) := by
  rw [inside, inside, bare, bare, List.filterMap_map, List.map_filterMap]
  congr 1
  funext p
  rcases p with ⟨chain, e⟩
  cases chain with
  | nil => rfl
  | cons h rest => by_cases hb : h = b <;> simp [hb]

theorem bare_append (os os' : Occurrences) : bare (os ++ os') = bare os ++ bare os' :=
  List.map_append ..

end Occurrences

theorem Markup.Node.routesIn_append (ns ns' : List Node) :
    Node.routesIn (ns ++ ns') = Node.routesIn ns ++ Node.routesIn ns' := by
  induction ns with
  | nil => rfl
  | cons n rest ih => rw [List.cons_append, Node.routesIn, Node.routesIn, ih, List.append_assoc]

/-- The bare elements among some trees side by side. -/
def bareIn (depth : Nat) (ns : List Node) : Occurrences :=
  bare (occurrences depth (Node.routesIn ns))

theorem bareIn_append (depth : Nat) (ns ns' : List Node) :
    bareIn depth (ns ++ ns') = bareIn depth ns ++ bareIn depth ns' := by
  rw [bareIn, Node.routesIn_append, occurrences_append, bare_append]
  rfl

theorem bareIn_middle (depth : Nat) (before after : List Node) (n : Node) :
    bareIn depth (before ++ n :: after) =
      bareIn depth before ++ bareIn depth [n] ++ bareIn depth after := by
  rw [← List.singleton_append, ← List.append_assoc, bareIn_append, bareIn_append]

/-- The bare elements in an element: itself, and those in its content below it. -/
theorem bareIn_element (depth : Nat) (name : String) (attributes : Markup.Attributes)
    (children : List Node) :
    bareIn depth [.element name attributes children] =
      bareIn depth [.element name attributes []] ++ (bareIn (depth + 1) children).map fun p =>
        ((Node.element name attributes []).classTokens.head?.toList ++ p.1, p.2) := by
  have hself : ∀ content : List Node, bareIn depth [.element name attributes content] =
      (if (Node.element name attributes []).classTokens ≠ [] ∧ depth < Conventions.maxDepth then
        [((Node.element name attributes []).classTokens.head?.toList, .element name attributes [])]
      else []) ++ (bareIn (depth + 1) content).map fun p =>
        ((Node.element name attributes []).classTokens.head?.toList ++ p.1, p.2) := by
    intro content
    have hsame : (Node.element name attributes content).classTokens =
        (Node.element name attributes []).classTokens := rfl
    rw [bareIn, Node.routesIn, Node.routesIn, List.append_nil,
      Conventions.occurrences_element depth name attributes content rfl, bare_append, hsame]
    congr 1
    · split
      · rfl
      · rfl
    · rw [bareIn, bare, bare, List.map_map, List.map_map]
      rfl
  rw [hself children, hself []]
  simp [bareIn, Node.routesIn, occurrences, bare]

/-! ## Nodes from elements -/

namespace Conventions

/-- The other classes of the node for some elements: those of a single element as they stand, and
those of several without repetitions. -/
def modifiersFrom : List Node → List String
  | [e] => e.classTokens.tail
  | es => unique (es.flatMap fun e => e.classTokens.tail)

/-- The node is made from the elements, the first of which gives it its name. -/
structure Made (c : Conventions) (es : List Node) (x : Component) : Prop where
  own : es ≠ []
  independent : x.independent = c.isIndependent x.base
  tag : es.head?.map Node.name = some x.tag
  modifiers : x.modifiers = modifiersFrom es
  variants : x.variants = AttributeSelector.dedup (es.flatMap fun e => c.variantsOf e.attributes)
  states : x.states = AttributeSelector.dedup (es.flatMap fun e => c.statesOf e.attributes)

variable {c : Conventions} {es es' : List Node} {a b x : Component}

theorem unique_modifiersFrom (es : List Node) :
    unique (modifiersFrom es) = unique (es.flatMap fun e => e.classTokens.tail) := by
  rcases es with _ | ⟨e, _ | ⟨e', rest⟩⟩
  · rfl
  · rw [modifiersFrom, List.flatMap_singleton]
  · exact unique_of_nodup (unique_nodup _)

/-- Several elements are never taken as they stand. -/
theorem modifiersFrom_append (h : es ≠ []) (h' : es' ≠ []) :
    modifiersFrom (es ++ es') = unique (modifiersFrom es ++ modifiersFrom es') := by
  have hseveral : modifiersFrom (es ++ es') =
      unique ((es ++ es').flatMap fun e => e.classTokens.tail) := by
    rcases es with _ | ⟨e, _ | ⟨e', rest⟩⟩
    · exact absurd rfl h
    · rcases es' with _ | ⟨e', rest⟩
      · exact absurd rfl h'
      · rfl
    · rfl
  rw [hseveral, List.flatMap_append, ← unique_append_unique (modifiersFrom es), unique_modifiersFrom,
    unique_modifiersFrom, unique_append_unique]

/-- Selectors of several elements may be freed of repetitions beforehand. -/
theorem dedup_flatMap_append (own : Node → List AttributeSelector) (es es' : List Node) :
    AttributeSelector.dedup (AttributeSelector.dedup (es.flatMap own) ++
      AttributeSelector.dedup (es'.flatMap own)) =
      AttributeSelector.dedup ((es ++ es').flatMap own) := by
  rw [List.flatMap_append]
  exact uniqueBy_append_uniqueBy _ _ _

theorem dedup_selectorsOf (reserved : String → Bool) (attributes : List (String × String)) :
    AttributeSelector.dedup (selectorsOf reserved attributes) = selectorsOf reserved attributes :=
  uniqueBy_of_nodup _ (selectorsOf_identities_nodup reserved attributes)

/-- What nodes are made from is kept exactly. -/
theorem made_descriptive (c : Conventions) : c.Descriptive c.Made where
  fresh := by
    intro name attributes children b modifiers found htokens
    refine ⟨by simp, rfl, rfl, ?_, ?_, ?_⟩
    · rw [modifiersFrom, htokens]
      rfl
    · rw [List.flatMap_singleton]
      exact (dedup_selectorsOf _ _).symm
    · rw [List.flatMap_singleton]
      exact (dedup_selectorsOf _ _).symm
  merge := by
    intro es es' a b hbase ha hb
    refine ⟨by simp [ha.own], ?_, ?_, ?_, ?_, ?_⟩
    · rw [Component.merge_independent, Component.merge_base, hb.independent, hbase]
    · rw [List.head?_append_of_ne_nil _ ha.own, ha.tag, Component.merge_eq]
      rfl
    · rw [Component.merge_modifiers, ha.modifiers, hb.modifiers,
        modifiersFrom_append ha.own hb.own]
    · rw [Component.merge_variants, ha.variants, hb.variants, dedup_flatMap_append]
    · rw [Component.merge_states, ha.states, hb.states, dedup_flatMap_append]
  markDeep := by
    intro es x h
    cases x
    exact ⟨h.own, h.independent, h.tag, h.modifiers, h.variants, h.states⟩
  withRoot := by
    intro isRoot es x h
    cases x
    exact ⟨h.own, h.independent, h.tag, h.modifiers, h.variants, h.states⟩

/-- The content of the elements plays no part. -/
theorem Made.bare (h : c.Made es x) : c.Made (es.map Node.bare) x where
  own := by simpa using h.own
  independent := h.independent
  tag := by
    rw [List.head?_map, Option.map_map]
    exact h.tag
  modifiers := by
    rw [h.modifiers]
    rcases es with _ | ⟨e, _ | ⟨e', rest⟩⟩
    · rfl
    · rfl
    · simp [modifiersFrom, List.flatMap_map]
  variants := by
    rw [h.variants, List.flatMap_map]
    rfl
  states := by
    rw [h.states, List.flatMap_map]
    rfl

end Conventions

/-! ## Correspondence of trees -/

namespace Component

variable {K K' : Component → Component → Prop} {x y : Component} {xs ys : List Component}

/-- The two trees have the same classes in the same places, and nodes in the same place are
related. -/
inductive Corresponds (K : Component → Component → Prop) : Component → Component → Prop where
  | mk {x y : Component} (here : K x y) (bases : x.ordered.map base = y.ordered.map base)
      (children : ∀ u ∈ x.ordered, ∀ v ∈ y.ordered, u.base = v.base → Corresponds K u v) :
      Corresponds K x y

theorem Corresponds.here (h : Corresponds K x y) : K x y := by
  cases h
  assumption

/-- Lists with the same classes, item by item. -/
theorem forall₂_of_bases {R : Component → Component → Prop}
    (hbases : xs.map base = ys.map base) (h : ∀ u ∈ xs, ∀ v ∈ ys, u.base = v.base → R u v) :
    List.Forall₂ R xs ys := by
  induction xs generalizing ys with
  | nil =>
    rw [List.map_nil, eq_comm, List.map_eq_nil_iff] at hbases
    subst hbases
    exact .nil
  | cons u rest ih =>
    rcases ys with _ | ⟨v, rest'⟩
    · cases hbases
    · rw [List.map_cons, List.map_cons, List.cons.injEq] at hbases
      refine .cons (h u List.mem_cons_self v List.mem_cons_self hbases.1) (ih hbases.2 ?_)
      intro u' hu v' hv
      exact h u' (List.mem_cons_of_mem _ hu) v' (List.mem_cons_of_mem _ hv)

/-- A choice by kind keeps lists in step whose items are of the same kinds. -/
theorem forall₂_filter {R : Component → Component → Prop} (f : Bool → Bool)
    (hkind : ∀ u v, R u v → u.independent = v.independent) (h : List.Forall₂ R xs ys) :
    List.Forall₂ R (xs.filter fun u => f u.independent) (ys.filter fun v => f v.independent) := by
  refine List.rel_filter (fun u v huv => ?_) h
  show f u.independent = true ↔ f v.independent = true
  rw [hkind u v huv]

/-- Lists whose items agree on a function have the same image. -/
theorem map_eq_of_forall₂ {β : Type} {g : Component → β}
    (h : List.Forall₂ (fun u v => g u = g v) xs ys) : xs.map g = ys.map g := by
  rwa [← List.forall₂_eq_eq_eq, List.forall₂_map_left_iff, List.forall₂_map_right_iff]

/-- Lists with the same classes, if what is made of the items of a class is the same. -/
theorem flatMap_eq_of_bases {β : Type} {f : Component → List β}
    (hbases : xs.map base = ys.map base)
    (h : ∀ u ∈ xs, ∀ v ∈ ys, u.base = v.base → f u = f v) : xs.flatMap f = ys.flatMap f := by
  rw [List.flatMap_def, List.flatMap_def, map_eq_of_forall₂ (forall₂_of_bases hbases h)]

/-- The Elements and the Blocks below nodes whose children agree in class and kind. -/
theorem forall₂_children {c : Conventions} {R : Component → Component → Prop} (hx : c.Coherent x)
    (hy : c.Coherent y) (hbases : x.ordered.map base = y.ordered.map base)
    (h : ∀ u ∈ x.ordered, ∀ v ∈ y.ordered, u.base = v.base →
      u.independent = v.independent ∧ R u v) :
    List.Forall₂ R x.nested y.nested ∧ List.Forall₂ R x.independents y.independents := by
  have hkinds := forall₂_of_bases hbases h
  rw [hx.nested_eq, hy.nested_eq, hx.independents_eq, hy.independents_eq]
  constructor
  · exact (forall₂_filter Bool.not (fun _ _ h => h.1) hkinds).imp fun _ _ h => h.2
  · exact (forall₂_filter id (fun _ _ h => h.1) hkinds).imp fun _ _ h => h.2

/-- Nodes that are related keep being so under a weaker relation. -/
theorem Corresponds.mono (hK : ∀ x y, K x y → K' x y) (h : Corresponds K x y) :
    Corresponds K' x y := by
  induction h with
  | mk here bases children ih => exact .mk (hK _ _ here) bases ih

/-- A mark at the roots of both trees. -/
theorem Corresponds.withRoot (isRoot : Bool)
    (hK : ∀ x y, K x y → K (x.withRoot isRoot) (y.withRoot isRoot)) (h : Corresponds K x y) :
    Corresponds K (x.withRoot isRoot) (y.withRoot isRoot) := by
  have hordered : ∀ z : Component, (z.withRoot isRoot).ordered = z.ordered := by
    intro z
    cases z
    rfl
  cases h with
  | mk here bases children =>
    refine .mk (hK _ _ here) ?_ ?_
    · rw [hordered, hordered, bases]
    · rw [hordered, hordered]
      exact children

end Component

open Component (Corresponds)

/-- Occurrences that are related class by class are stood for by trees that correspond. -/
theorem Gathers.corresponds {fits : List Node → Component → Prop}
    {E : Occurrences → Occurrences → Prop} {K : Component → Component → Prop}
    (hinside : ∀ os os' b, E os os' → E (inside b os) (inside b os'))
    (hheads : ∀ os os', E os os' → unique (heads os) = unique (heads os'))
    (hfits : ∀ os os' x x', E os os' → x.base = x'.base → x.isRoot = x'.isRoot →
      fits (here os) x → fits (here os') x' → K x x')
    {os os' : Occurrences} {x x' : Component} (h : Gathers fits os x) (h' : Gathers fits os' x')
    (hmarks : x.Unmarked) (hmarks' : x'.Unmarked) (hE : E os os') (hbase : x.base = x'.base) :
    Corresponds K x x' := by
  induction h generalizing os' x' with
  | @mk os x own fit closed bases children ih =>
    rw [Component.unmarked_iff] at hmarks hmarks'
    refine .mk ?_ ?_ ?_
    · exact hfits os os' x x' hE hbase (hmarks.1.trans hmarks'.1.symm) fit h'.fit
    · rw [bases, h'.bases]
      exact hheads os os' hE
    · -- children of one class stand for what lies inside the class
      intro u hu v hv hclass
      refine ih u hu (h'.child hv) (hmarks.2 u hu) (hmarks'.2 v hv) ?_ hclass
      rw [← hclass]
      exact hinside os os' u.base hE

/-- Without the content of elements, a node stands for the same. -/
theorem Gathers.bare {fits : List Node → Component → Prop} {os : Occurrences} {x : Component}
    (hfits : ∀ es x, fits es x → fits (es.map Node.bare) x) (h : Gathers fits os x) :
    Gathers fits (Occurrences.bare os) x := by
  induction h with
  | mk own fit closed bases children ih =>
    refine .mk ?_ ?_ ?_ ?_ ?_
    · rw [here_bare]
      simpa using own
    · rw [here_bare]
      exact hfits _ _ fit
    · intro b rest e he
      rcases List.mem_map.mp he with ⟨⟨chain, e'⟩, hmem, heq⟩
      rcases Prod.mk.inj heq with ⟨rfl, _⟩
      rw [heads_bare]
      exact closed b rest e' hmem
    · rw [heads_bare]
      exact bases
    · intro y hy
      rw [inside_bare]
      exact ih y hy

/-- Elements of one class with related content are made into trees that correspond. -/
theorem Conventions.corresponds_of_build {c : Conventions} {E : Occurrences → Occurrences → Prop}
    {K : Component → Component → Prop}
    (hinside : ∀ os os' b, E os os' → E (inside b os) (inside b os'))
    (hheads : ∀ os os', E os os' → unique (heads os) = unique (heads os'))
    (hmade : ∀ os os' x x', E os os' → x.base = x'.base → x.isRoot = x'.isRoot →
      c.Made (here os) x → c.Made (here os') x' → K x x')
    {n n' : Node} {t t' : Component} (hbuild : c.build 0 n = some t)
    (hbuild' : c.build 0 n' = some t') (hclass : n.classTokens = n'.classTokens)
    (hE : E (bareIn 0 [n]) (bareIn 0 [n'])) : Corresponds K t t' := by
  -- the occurrences inside the class of the root are those that its tree stands for
  have hroot : ∀ m u, c.build 0 m = some u →
      Gathers c.Made (inside u.base (bareIn 0 [m])) u := by
    intro m u hu
    rcases gathers_of_build c.made_descriptive 0 m u hu with ⟨os, hos, hgathers⟩
    have hsame : inside u.base (bareIn 0 [m]) = Occurrences.bare os := by
      rw [bareIn, Node.routesIn, Node.routesIn, List.append_nil, inside_bare, hos, inside_prefixed,
        if_pos rfl]
    rw [hsame]
    exact hgathers.bare fun _ _ h => h.bare
  have hbase : t.base = t'.base := by
    rw [base_of_build hbuild, base_of_build hbuild', Route.base, Route.base, hclass]
  have hgathers' := hroot n' t' hbuild'
  rw [← hbase] at hgathers'
  exact (hroot n t hbuild).corresponds hinside hheads hmade hgathers'
    (unmarked_of_build 0 n t hbuild) (unmarked_of_build 0 n' t' hbuild') (hinside _ _ _ hE) hbase

end BlockMarkup
