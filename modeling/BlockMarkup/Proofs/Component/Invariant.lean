import Mathlib.Data.List.Nodup
import BlockMarkup.Proofs.Component.Nodes

/-! # The three lists of children

A node keeps its children three times: Elements, Blocks, and all of them in the order of the
markup. `Coherent` says that the three lists tell the same story and that the kind and the
attributes of the node are those that the conventions allow. Building gives coherent trees
(`treeCoherent_of_build`) and merging keeps them so (`TreeCoherent.merge`), because the kind of a
node is decided by its base class alone: nodes that are merged are never a Block and an Element.
-/

namespace BlockMarkup

namespace Conventions

open Component
open Markup (Node)

/-- The representation invariant of a node. -/
structure Coherent (c : Conventions) (x : Component) : Prop where
  bases_nodup : (x.ordered.map base).Nodup
  nested_eq : x.nested = x.ordered.filter (!·.independent)
  independents_eq : x.independents = x.ordered.filter (·.independent)
  independent_eq : x.independent = (!c.external.covers x.base && c.naming.isBlock x.base)
  variants_nodup : (x.variants.map AttributeSelector.identity).Nodup
  variants_reserved : ∀ a ∈ x.variants, c.policy.isVariantKey a.key
  states_nodup : (x.states.map AttributeSelector.identity).Nodup
  states_reserved : ∀ a ∈ x.states, c.policy.isStateKey a.key

/-- The invariant at every node of a tree. -/
def TreeCoherent (c : Conventions) (t : Component) : Prop :=
  ∀ x, x.IsNodeOf t → c.Coherent x

variable {c : Conventions}

theorem Coherent.mem_ordered {t y : Component} (h : c.Coherent t)
    (hy : y ∈ t.nested ++ t.independents ++ t.ordered) : y ∈ t.ordered := by
  rw [h.nested_eq, h.independents_eq, List.mem_append, List.mem_append] at hy
  rcases hy with (hy | hy) | hy
  · exact (List.mem_filter.mp hy).1
  · exact (List.mem_filter.mp hy).1
  · exact hy

/-- All nodes of a tree are reached through the list in the order of the markup. -/
theorem treeCoherent_iff {t : Component} :
    c.TreeCoherent t ↔ c.Coherent t ∧ ∀ y ∈ t.ordered, c.TreeCoherent y := by
  constructor
  · intro h
    exact ⟨h t (.root t), fun y hy x hx => h x (.ordered hy hx)⟩
  · rintro ⟨ht, h⟩
    exact forall_isNodeOf_iff.mpr ⟨ht, fun y hy => h y (ht.mem_ordered hy)⟩

theorem TreeCoherent.root {t : Component} (h : c.TreeCoherent t) : c.Coherent t :=
  (treeCoherent_iff.mp h).1

theorem TreeCoherent.child {t y : Component} (h : c.TreeCoherent t) (hy : y ∈ t.ordered) :
    c.TreeCoherent y :=
  (treeCoherent_iff.mp h).2 y hy

/-- The name of the element and the marks of a node do not matter. -/
theorem TreeCoherent.remark {b : String} {i : Bool} {m : List String}
    {v s : List AttributeSelector} {n is o : List Component} {tag : String} {isRoot viaDeep : Bool}
    (tag' : String) (isRoot' viaDeep' : Bool)
    (h : c.TreeCoherent (.mk b i m v s n is o tag isRoot viaDeep)) :
    c.TreeCoherent (.mk b i m v s n is o tag' isRoot' viaDeep') := by
  rw [treeCoherent_iff] at h ⊢
  rcases h with ⟨ht, hy⟩
  exact ⟨⟨ht.1, ht.2, ht.3, ht.4, ht.5, ht.6, ht.7, ht.8⟩, hy⟩

theorem TreeCoherent.markDeep {t : Component} (h : c.TreeCoherent t) :
    c.TreeCoherent t.markDeep := by
  cases t
  exact h.remark _ _ _

theorem TreeCoherent.withRoot {t : Component} (isRoot : Bool) (h : c.TreeCoherent t) :
    c.TreeCoherent (t.withRoot isRoot) := by
  cases t
  exact h.remark _ _ _

/-! ## Kinds -/

/-- The kind of every node is decided by its base class. -/
def KindsDecided (c : Conventions) (xs : List Component) : Prop :=
  ∀ x ∈ xs, x.independent = c.isIndependent x.base

theorem Coherent.kind {x : Component} (h : c.Coherent x) :
    x.independent = c.isIndependent x.base :=
  h.independent_eq

theorem KindsDecided.dedup {xs : List Component} (h : c.KindsDecided xs) :
    c.KindsDecided (dedup xs) := by
  refine dedup_induction ?_ h
  intro a b hbase _ hb
  rw [merge_independent, merge_base, hb, hbase]

/-- The Blocks among merged nodes are the mergers of the Blocks, and likewise for Elements. -/
theorem KindsDecided.filter_dedup {xs : List Component} (h : c.KindsDecided xs) (f : Bool → Bool) :
    (Component.dedup xs).filter (fun y => f y.independent) =
      Component.dedup (xs.filter fun x => f x.independent) := by
  -- leaving out a kind is leaving out classes
  have hxs : xs.filter (fun x => f x.independent) =
      xs.filter fun x => f (c.isIndependent x.base) :=
    List.filter_congr fun x hx => by rw [h x hx]
  have hys : (Component.dedup xs).filter (fun y => f y.independent) =
      (Component.dedup xs).filter fun y => f (c.isIndependent y.base) :=
    List.filter_congr fun y hy => by rw [h.dedup y hy]
  rw [hxs, hys]
  exact dedup_filter (fun b => f (c.isIndependent b)) xs

/-! ## Merging -/

/-- The children of two nodes side by side. -/
theorem kindsDecided_children {a b : Component} (ha : c.TreeCoherent a)
    (hb : c.TreeCoherent b) : c.KindsDecided (a.ordered ++ b.ordered) := by
  intro x hx
  rcases List.mem_append.mp hx with hx | hx
  · exact (ha.child hx).root.kind
  · exact (hb.child hx).root.kind

theorem merge_nested_eq {a b : Component} (ha : c.TreeCoherent a) (hb : c.TreeCoherent b) :
    (merge a b).nested = (dedup (a.ordered ++ b.ordered)).filter (!·.independent) := by
  rw [merge_nested, ha.root.nested_eq, hb.root.nested_eq, ← List.filter_append]
  exact ((kindsDecided_children ha hb).filter_dedup Bool.not).symm

theorem merge_independents_eq {a b : Component} (ha : c.TreeCoherent a)
    (hb : c.TreeCoherent b) :
    (merge a b).independents = (dedup (a.ordered ++ b.ordered)).filter (·.independent) := by
  rw [merge_independents, ha.root.independents_eq, hb.root.independents_eq,
    ← List.filter_append]
  exact ((kindsDecided_children ha hb).filter_dedup id).symm

/-- Where the kinds of children are decided by their classes, the merged children in the order of
the markup are the mergers of all children. -/
theorem merge_ordered_eq {a b : Component} (ha : c.TreeCoherent a) (hb : c.TreeCoherent b) :
    (merge a b).ordered = dedup (a.ordered ++ b.ordered) := by
  rw [merge_ordered, ← merge_nested, ← merge_independents, merge_nested_eq ha hb,
    merge_independents_eq ha hb]
  apply remap_partition (dedup_bases_nodup _)
  rw [map_uniqueBy, dedup_bases]

theorem Coherent.merge {a b : Component} (ha : c.TreeCoherent a) (hb : c.TreeCoherent b)
    (hbase : a.base = b.base) : c.Coherent (merge a b) where
  bases_nodup := by
    rw [merge_ordered_eq ha hb]
    exact dedup_bases_nodup _
  nested_eq := by rw [merge_nested_eq ha hb, merge_ordered_eq ha hb]
  independents_eq := by rw [merge_independents_eq ha hb, merge_ordered_eq ha hb]
  independent_eq := by
    rw [merge_independent, merge_base, hbase]
    exact hb.root.independent_eq
  variants_nodup := by
    rw [merge_variants]
    exact uniqueBy_keys_nodup _ _
  variants_reserved := by
    intro x hx
    rw [merge_variants] at hx
    rcases List.mem_append.mp (mem_of_mem_uniqueBy _ hx) with hx | hx
    · exact ha.root.variants_reserved x hx
    · exact hb.root.variants_reserved x hx
  states_nodup := by
    rw [merge_states]
    exact uniqueBy_keys_nodup _ _
  states_reserved := by
    intro x hx
    rw [merge_states] at hx
    rcases List.mem_append.mp (mem_of_mem_uniqueBy _ hx) with hx | hx
    · exact ha.root.states_reserved x hx
    · exact hb.root.states_reserved x hx

/-- A child of a coherent node is lower than the node. -/
theorem Coherent.height_lt {t y : Component} (h : c.Coherent t) (hy : y ∈ t.ordered) :
    y.height < t.height := by
  have ht := height_le.mp (Nat.le_refl t.height)
  cases hi : y.independent with
  | false => exact ht.1 y (by rw [h.nested_eq]; simp [hy, hi])
  | true => exact ht.2 y (by rw [h.independents_eq]; simp [hy, hi])

/-- Induction over a coherent tree, along the list in the order of the markup. -/
@[elab_as_elim]
theorem TreeCoherent.induction {P : Component → Prop} {t : Component} (ht : c.TreeCoherent t)
    (hstep : ∀ t, c.TreeCoherent t → (∀ y ∈ t.ordered, P y) → P t) : P t := by
  induction t using ordered_induction with
  | hstep t ih => exact hstep t ht fun y hy => ih y hy (ht.child hy)

theorem TreeCoherent.merge {a b : Component} (ha : c.TreeCoherent a) (hb : c.TreeCoherent b)
    (hbase : a.base = b.base) : c.TreeCoherent (Component.merge a b) :=
  forall_isNodeOf_merge (fun _ _ he ha hb => Coherent.merge ha hb he) hbase ha hb

theorem treeCoherent_dedup {ts : List Component} (h : ∀ t ∈ ts, c.TreeCoherent t) :
    ∀ t ∈ dedup ts, c.TreeCoherent t :=
  dedup_induction (fun _ _ he ha hb => ha.merge hb he) h

/-! ## Building -/

/-- The attributes of a node are kept once each, and only those that the axis reserves. -/
theorem selectorsOf_identities_nodup (reserved : String → Bool)
    (attributes : List (String × String)) :
    ((selectorsOf reserved attributes).map AttributeSelector.identity).Nodup :=
  uniqueBy_keys_nodup _ _

theorem selectorsOf_reserved {reserved : String → Bool} {attributes : List (String × String)} :
    ∀ a ∈ selectorsOf reserved attributes, reserved a.key := by
  intro a ha
  have hmem := mem_of_mem_uniqueBy _ ha
  rw [List.mem_map] at hmem
  rcases hmem with ⟨p, hp, rfl⟩
  rw [List.mem_filter, Bool.and_eq_true] at hp
  exact hp.2.2

/-- The node for an element is coherent if the trees found below it are. -/
theorem treeCoherent_component {found : List Component} (h : ∀ t ∈ found, c.TreeCoherent t)
    (name : String) (attributes : List (String × String)) (base : String)
    (modifiers : List String) :
    c.TreeCoherent (c.component name attributes base modifiers found) := by
  rw [treeCoherent_iff]
  refine ⟨?_, treeCoherent_dedup h⟩
  exact {
    bases_nodup := dedup_bases_nodup found
    nested_eq := rfl
    independents_eq := rfl
    independent_eq := rfl
    variants_nodup := selectorsOf_identities_nodup _ _
    variants_reserved := selectorsOf_reserved
    states_nodup := selectorsOf_identities_nodup _ _
    states_reserved := selectorsOf_reserved }

theorem keptByBuilding_treeCoherent : c.KeptByBuilding c.TreeCoherent where
  component _ _ _ _ _ _ hfound := treeCoherent_component hfound _ _ _ _
  markDeep _ h := h.markDeep

theorem treeCoherent_of_build (depth : Nat) (n : Node) (t : Component)
    (h : c.build depth n = some t) : c.TreeCoherent t :=
  keptByBuilding_treeCoherent.of_build depth n t h

theorem treeCoherent_of_found (depth : Nat) (deep : Bool) (ns : List Node) :
    ∀ t ∈ c.found depth deep ns, c.TreeCoherent t :=
  keptByBuilding_treeCoherent.of_found depth deep ns

/-- The trees that come from markup by building, marking and merging. -/
inductive Built (c : Conventions) : Component → Prop where
  | build {depth : Nat} {n : Node} {t : Component} : c.build depth n = some t → Built c t
  | dedup {ts : List Component} {t : Component} : (∀ u ∈ ts, Built c u) → t ∈ dedup ts → Built c t
  | withRoot {t : Component} (isRoot : Bool) : Built c t → Built c (t.withRoot isRoot)
  | markDeep {t : Component} : Built c t → Built c t.markDeep

/-- Every node of every tree that is built under one configuration is coherent, merged or not. -/
theorem coherent_of_built {t x : Component} (ht : c.Built t) (hx : x.IsNodeOf t) :
    c.Coherent x := by
  -- all nodes at once, so that the steps can use what holds below
  suffices h : c.TreeCoherent t from h x hx
  clear hx
  induction ht with
  | build h => exact treeCoherent_of_build _ _ _ h
  | dedup _ ht ih => exact treeCoherent_dedup ih _ ht
  | withRoot isRoot _ ih => exact ih.withRoot isRoot
  | markDeep _ ih => exact ih.markDeep

/-- Two banners with an Element and a Block, merged. -/
theorem coherent_merged_banners :
    let banner (modifier : String) : Node := .element "div" [("class", "hero-banner")] [
      .element "p" [("class", "desc " ++ modifier), ("data-variant", modifier)] [],
      .element "div" [] [.element "div" [("class", "media-card")] []]]
    let merged := dedup ([banner "-a", banner "-b"].filterMap (({} : Conventions).build 0))
    merged.map (·.ordered.map base) = [["desc", "media-card"]] ∧
      ∀ t ∈ merged, ∀ x, x.IsNodeOf t → ({} : Conventions).Coherent x := by
  intro banner merged
  refine ⟨by decide +kernel, ?_⟩
  intro t ht x hx
  refine coherent_of_built (.dedup ?_ ht) hx
  intro u hu
  rcases List.mem_filterMap.mp hu with ⟨n, _, hn⟩
  exact .build hn

end Conventions

end BlockMarkup
