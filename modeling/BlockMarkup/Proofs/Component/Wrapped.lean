import Mathlib.Logic.Relation
import BlockMarkup.Proofs.Component.Likeness

/-! # Wrapping content

Elements without a class vanish when a tree is built. `Wraps n n'` says that `n'` is `n` with runs of
content wrapped into such elements, wherever and as often as one likes. Wrapping leaves the classed
elements, their order and their chains alone (`bareIn_of_wrapStep`), so the trees of the two are the
same but for the marks that say whether there was anything in between
(`sameNodes_of_wraps`, `plain_of_sameNodes`).

Wrapping adds to the distance of what is wrapped, so no element may be pushed over the depth limit.
-/

namespace BlockMarkup

open Markup (Node)
open Component (base Corresponds)
open Occurrences

namespace Markup.Node

/-- A run of the content of an element, there or further inside, is wrapped into an element without
a class. -/
inductive WrapStep : Node → Node → Prop where
  | run (name : String) (attributes : Attributes) (before run after : List Node) (wrapper : String)
      (wrapped : Attributes) : (Node.element wrapper wrapped run).classTokens = [] →
      WrapStep (.element name attributes (before ++ run ++ after))
        (.element name attributes (before ++ .element wrapper wrapped run :: after))
  | inside (name : String) (attributes : Attributes) (before after : List Node) {n n' : Node} :
      WrapStep n n' → WrapStep (.element name attributes (before ++ n :: after))
        (.element name attributes (before ++ n' :: after))

/-- Runs of content are wrapped, one after the other. -/
def Wraps : Node → Node → Prop := Relation.ReflTransGen WrapStep

/-- All elements are above the depth limit, if the tree begins at a given depth. -/
def Shallow (depth : Nat) (n : Node) : Prop :=
  ∀ r ∈ n.routes, depth + r.around.length < Conventions.maxDepth

instance (depth : Nat) (n : Node) : Decidable (n.Shallow depth) :=
  inferInstanceAs (Decidable (∀ r ∈ n.routes, depth + r.around.length < Conventions.maxDepth))

theorem shallow_element {depth : Nat} {name : String} {attributes : Attributes}
    {children : List Node} :
    (Node.element name attributes children).Shallow depth ↔
      depth < Conventions.maxDepth ∧ ∀ n ∈ children, n.Shallow (depth + 1) := by
  rw [Shallow, routes, List.forall_mem_cons, List.forall_mem_map]
  refine and_congr Iff.rfl ?_
  constructor
  · intro h n hn r hr
    have hlt := h r (mem_routesIn.mpr ⟨n, hn, hr⟩)
    simp only [Route.under, List.length_cons] at hlt
    omega
  · intro h r hr
    rcases mem_routesIn.mp hr with ⟨n, hn, hr⟩
    have hlt := h n hn r hr
    simp only [Route.under, List.length_cons]
    omega

theorem Shallow.mono {depth depth' : Nat} {n : Node} (h : n.Shallow depth') (hle : depth ≤ depth') :
    n.Shallow depth := by
  intro r hr
  have hlt := h r hr
  omega

end Markup.Node

open Markup.Node (WrapStep Wraps Shallow)

/-! ## Wrapping and occurrences -/

/-- Far above the limit the depth makes no difference. -/
theorem bareIn_of_shallow {depth depth' : Nat} {ns : List Node} (h : ∀ n ∈ ns, n.Shallow depth)
    (h' : ∀ n ∈ ns, n.Shallow depth') : bareIn depth ns = bareIn depth' ns := by
  have hfilter : (Node.routesIn ns).filter (·.Reached depth) =
      (Node.routesIn ns).filter (·.Reached depth') := by
    refine List.filter_congr fun r hr => decide_eq_decide.mpr ?_
    rcases Node.mem_routesIn.mp hr with ⟨n, hn, hr⟩
    have hlt := h n hn r hr
    have hlt' := h' n hn r hr
    exact and_congr_right fun _ => ⟨fun _ => hlt', fun _ => hlt⟩
  rw [bareIn, bareIn, occurrences, occurrences, hfilter]

/-- What a step does to the elements: none is lifted, and the classed ones keep their chains. -/
theorem bareIn_of_wrapStep {n n' : Node} (h : WrapStep n n') :
    ∀ depth, n'.Shallow depth → n.Shallow depth ∧ bareIn depth [n] = bareIn depth [n'] := by
  induction h with
  | run name attributes before run after wrapper wrapped hclass =>
    intro depth hdepth
    rw [Node.shallow_element, List.forall_mem_append, List.forall_mem_cons,
      Node.shallow_element] at hdepth
    rcases hdepth with ⟨hlt, hbefore, ⟨_, hrun⟩, hafter⟩
    -- without the wrapper the run stands one level higher
    have hhigher : ∀ n ∈ run, n.Shallow (depth + 1) :=
      fun n hn => (hrun n hn).mono (Nat.le_succ _)
    have hvanishes : bareIn (depth + 1) [.element wrapper wrapped run] = bareIn (depth + 1) run := by
      rw [bareIn_element, bareIn_of_shallow hhigher hrun]
      have hempty : (Node.element wrapper wrapped []).classTokens = [] := hclass
      have hself : bareIn (depth + 1) [.element wrapper wrapped []] = [] := by
        simp [bareIn, Node.routesIn, Node.routes, occurrences, bare, Route.Reached, hempty]
      rw [hself, hempty]
      simp
    refine ⟨?_, ?_⟩
    · rw [Node.shallow_element, List.forall_mem_append, List.forall_mem_append]
      exact ⟨hlt, ⟨hbefore, hhigher⟩, hafter⟩
    · have hcontent : bareIn (depth + 1) (before ++ run ++ after) =
          bareIn (depth + 1) (before ++ .element wrapper wrapped run :: after) := by
        rw [bareIn_append, bareIn_append, bareIn_middle, hvanishes]
      rw [bareIn_element, hcontent, ← bareIn_element]
  | @inside name attributes before after n n' _ ih =>
    intro depth hdepth
    rw [Node.shallow_element, List.forall_mem_append, List.forall_mem_cons] at hdepth
    rcases hdepth with ⟨hlt, hbefore, hn', hafter⟩
    rcases ih (depth + 1) hn' with ⟨hn, hsame⟩
    refine ⟨?_, ?_⟩
    · rw [Node.shallow_element, List.forall_mem_append, List.forall_mem_cons]
      exact ⟨hlt, hbefore, hn, hafter⟩
    · have hcontent : bareIn (depth + 1) (before ++ n :: after) =
          bareIn (depth + 1) (before ++ n' :: after) := by
        rw [bareIn_middle, bareIn_middle, hsame]
      rw [bareIn_element, hcontent, ← bareIn_element]

theorem bareIn_of_wraps {n n' : Node} (h : Wraps n n') {depth : Nat} (hdepth : n'.Shallow depth) :
    n.Shallow depth ∧ bareIn depth [n] = bareIn depth [n'] := by
  induction h using Relation.ReflTransGen.head_induction_on with
  | refl => exact ⟨hdepth, rfl⟩
  | head hstep _ ih =>
    rcases bareIn_of_wrapStep hstep depth ih.1 with ⟨hshallow, hsame⟩
    exact ⟨hshallow, hsame.trans ih.2⟩

/-- Wrapping leaves the element itself alone. -/
theorem classTokens_of_wraps {n n' : Node} (h : Wraps n n') : n.classTokens = n'.classTokens := by
  induction h with
  | refl => rfl
  | tail _ hstep ih =>
    rw [ih]
    cases hstep with
    | run => rfl
    | inside => rfl

/-! ## Trees but for the marks of wrapping -/

namespace Component

mutual

/-- The tree without the marks that say whether elements without classes stand in between. -/
def plain : Component → Component
  | mk b i m v s nested independents ordered t r _ =>
    mk b i m v s (plainAll nested) (plainAll independents) (plainAll ordered) t r false

/-- Trees side by side without these marks. -/
def plainAll : List Component → List Component
  | [] => []
  | x :: rest => plain x :: plainAll rest

end

theorem plainAll_eq_map (xs : List Component) : plainAll xs = xs.map plain := by
  induction xs with
  | nil => rfl
  | cons x rest ih => rw [plainAll, ih, List.map_cons]

/-- The two nodes are the same, but for what is below them and for the mark of wrapping. -/
structure SameNode (x y : Component) : Prop where
  base : x.base = y.base
  independent : x.independent = y.independent
  modifiers : x.modifiers = y.modifiers
  variants : x.variants = y.variants
  states : x.states = y.states
  tag : x.tag = y.tag
  isRoot : x.isRoot = y.isRoot

/-- Trees that are the same node by node differ in no other mark. -/
theorem plain_of_sameNodes {c : Conventions} {x y : Component} (h : Corresponds SameNode x y)
    (hx : c.TreeCoherent x) (hy : c.TreeCoherent y) : x.plain = y.plain := by
  induction h with
  | @mk x y here bases children ih =>
    have hplain : ∀ u ∈ x.ordered, ∀ v ∈ y.ordered, u.base = v.base → u.plain = v.plain :=
      fun u hu v hv hclass => ih u hu v hv hclass (hx.child hu) (hy.child hv)
    have hall : plainAll x.ordered = plainAll y.ordered := by
      rw [plainAll_eq_map, plainAll_eq_map]
      exact map_eq_of_forall₂ (forall₂_of_bases bases hplain)
    rcases forall₂_children hx.root hy.root bases fun u hu v hv hclass =>
      ⟨(children u hu v hv hclass).here.independent, hplain u hu v hv hclass⟩ with
      ⟨hnested, hindependents⟩
    replace hnested := map_eq_of_forall₂ hnested
    replace hindependents := map_eq_of_forall₂ hindependents
    rw [← plainAll_eq_map, ← plainAll_eq_map] at hnested hindependents
    rcases here with ⟨hbase, hindependent, hmodifiers, hvariants, hstates, htag, hroot⟩
    cases x
    cases y
    simp only [base, independent, modifiers, variants, states, tag, isRoot, nested, independents,
      ordered] at hbase hindependent hmodifiers hvariants hstates htag hroot hnested hindependents hall
    rw [plain, plain, hbase, hindependent, hmodifiers, hvariants, hstates, htag, hroot, hnested,
      hindependents, hall]

end Component

open Component (SameNode)

namespace Conventions

variable {c : Conventions}

/-- What is made from the same elements is the same. -/
theorem Made.sameNode {es : List Node} {x y : Component} (hbase : x.base = y.base)
    (hroot : x.isRoot = y.isRoot) (hx : c.Made es x) (hy : c.Made es y) : SameNode x y where
  base := hbase
  independent := by rw [hx.independent, hy.independent, hbase]
  modifiers := by rw [hx.modifiers, hy.modifiers]
  variants := by rw [hx.variants, hy.variants]
  states := by rw [hx.states, hy.states]
  tag := Option.some.inj (hx.tag.symm.trans hy.tag)
  isRoot := hroot

/-- Wrapping changes no node of the tree. -/
theorem sameNodes_of_wraps {n n' : Node} (h : Wraps n n') (hclass : n.classTokens ≠ [])
    (hdepth : n'.Shallow 0) :
    ∃ t t', c.build 0 n = some t ∧ c.build 0 n' = some t' ∧ Corresponds SameNode t t' := by
  have hsame := classTokens_of_wraps h
  rcases exists_build_of_classTokens (c := c) hclass with ⟨t, ht⟩
  rcases exists_build_of_classTokens (c := c) (hsame ▸ hclass) with ⟨t', ht'⟩
  refine ⟨t, t', ht, ht', ?_⟩
  refine corresponds_of_build (E := Eq) ?_ ?_ ?_ ht ht' hsame (bareIn_of_wraps h hdepth).2
  · rintro os _ b rfl
    rfl
  · rintro os _ rfl
    rfl
  · rintro os _ x y rfl hbase hroot hx hy
    exact hx.sameNode hbase hroot hy

end Conventions

end BlockMarkup
