import Mathlib.Data.List.Perm.Basic
import BlockMarkup.Proofs.Component.Gathers

/-! # Children that are an Element here and a Block there

Trees that come from markup have well-formed lists of children, and no two of them disagree about the
kind of a class (`treeWellFormed_of_treeCoherent`, `kindsAgree_of_treeCoherent`). Trees that are put
together by hand may be well-formed and yet disagree: a class may be an Element below the one and a
Block below the other. Merging treats the two lists apart, so such a class stands in both lists of
the merger (`inBoth_merge_iff`), and it is the only thing that can go wrong
(`merge_of_treeWellFormed`).
-/

namespace BlockMarkup.Component

/-- What every list of children says by itself: classes stand once in the order of the markup,
and Elements and Blocks are in the list for them. -/
structure Sorted (x : Component) : Prop where
  bases_nodup : (x.ordered.map base).Nodup
  elements : ∀ y ∈ x.nested, y.independent = false
  blocks : ∀ y ∈ x.independents, y.independent = true

/-- The lists of children fit together. -/
structure WellFormed (x : Component) : Prop extends Sorted x where
  perm : x.ordered.Perm (x.nested ++ x.independents)

/-- The lists of children fit together at every node of a tree. -/
def TreeWellFormed (t : Component) : Prop := ∀ x : Component, x.IsNodeOf t → x.WellFormed

/-- The children of a kind. -/
def ofKind (x : Component) : Bool → List Component
  | false => x.nested
  | true => x.independents

/-- The class is an Element and a Block among the children. -/
def InBoth (x : Component) (d : String) : Prop :=
  d ∈ x.nested.map base ∧ d ∈ x.independents.map base

/-- Where the same classes lead to a node below either root, the nodes are both Elements or both
Blocks. -/
def KindsAgree (a b : Component) : Prop :=
  ∀ p ∈ a.paths, ∀ q ∈ b.paths, p.1 = q.1 → p.1 ≠ [a.base] → p.2.independent = q.2.independent

variable {a b t x y : Component}

/-! ## Well-formed nodes -/

namespace WellFormed

theorem mem_ofKind_iff (h : x.WellFormed) {i : Bool} :
    y ∈ x.ofKind i ↔ y ∈ x.ordered ∧ y.independent = i := by
  rw [h.perm.mem_iff, List.mem_append]
  cases i with
  | false =>
    refine ⟨fun hy => ⟨Or.inl hy, h.elements y hy⟩, ?_⟩
    rintro ⟨hy | hy, hkind⟩
    · exact hy
    · rw [h.blocks y hy] at hkind
      cases hkind
  | true =>
    refine ⟨fun hy => ⟨Or.inr hy, h.blocks y hy⟩, ?_⟩
    rintro ⟨hy | hy, hkind⟩
    · rw [h.elements y hy] at hkind
      cases hkind
    · exact hy

theorem mem_bases_ofKind_iff (h : x.WellFormed) {i : Bool} {d : String} :
    d ∈ (x.ofKind i).map base ↔ ∃ y ∈ x.ordered, y.base = d ∧ y.independent = i := by
  rw [List.mem_map]
  constructor
  · rintro ⟨y, hy, rfl⟩
    rw [h.mem_ofKind_iff] at hy
    exact ⟨y, hy.1, rfl, hy.2⟩
  · rintro ⟨y, hy, rfl, hkind⟩
    exact ⟨y, h.mem_ofKind_iff.mpr ⟨hy, hkind⟩, rfl⟩

theorem nodup_bases_ofKind (h : x.WellFormed) (i : Bool) : ((x.ofKind i).map base).Nodup := by
  have hall : ((x.nested ++ x.independents).map base).Nodup :=
    (h.perm.map base).nodup_iff.mp h.bases_nodup
  rw [List.map_append, List.nodup_append'] at hall
  cases i with
  | false => exact hall.1
  | true => exact hall.2.1

theorem not_inBoth (h : x.WellFormed) (d : String) : ¬ x.InBoth d := by
  have hall : ((x.nested ++ x.independents).map base).Nodup :=
    (h.perm.map base).nodup_iff.mp h.bases_nodup
  rw [List.map_append, List.nodup_append'] at hall
  exact fun hd => hall.2.2 hd.1 hd.2

end WellFormed

theorem treeWellFormed_iff :
    t.TreeWellFormed ↔ t.WellFormed ∧ ∀ y ∈ t.ordered, y.TreeWellFormed := by
  constructor
  · intro h
    exact ⟨h t (.root t), fun y hy x hx => h x (.ordered hy hx)⟩
  · rintro ⟨ht, hbelow⟩
    refine forall_isNodeOf_iff.mpr ⟨ht, fun y hy => hbelow y ?_⟩
    rw [List.mem_append, ← ht.perm.mem_iff, or_self] at hy
    exact hy

/-- Every node of a well-formed tree is reached in the order of the markup. -/
theorem treeWellFormed_iff_forall_mem_paths :
    t.TreeWellFormed ↔ ∀ p ∈ t.paths, p.2.WellFormed := by
  constructor
  · exact fun h p hp => h p.2 (isNodeOf_of_mem_paths hp)
  · intro h
    induction t using ordered_induction with
    | hstep t ih =>
      rw [treeWellFormed_iff]
      refine ⟨h _ (mem_paths.mpr (Or.inl rfl)), fun y hy => ih y hy fun p hp => ?_⟩
      exact h (t.base :: p.1, p.2) (mem_paths.mpr (Or.inr ⟨y, hy, p, hp, rfl⟩))

instance (x : Component) : Decidable x.WellFormed :=
  decidable_of_iff ((x.ordered.map base).Nodup ∧ (∀ y ∈ x.nested, y.independent = false) ∧
      (∀ y ∈ x.independents, y.independent = true) ∧ x.ordered.Perm (x.nested ++ x.independents))
    ⟨fun ⟨h, he, hb, hp⟩ => ⟨⟨h, he, hb⟩, hp⟩,
      fun h => ⟨h.bases_nodup, h.elements, h.blocks, h.perm⟩⟩

instance (t : Component) : Decidable t.TreeWellFormed :=
  decidable_of_iff _ treeWellFormed_iff_forall_mem_paths.symm

instance (a b : Component) : Decidable (KindsAgree a b) :=
  inferInstanceAs (Decidable (∀ p ∈ a.paths, ∀ q ∈ b.paths, p.1 = q.1 → p.1 ≠ [a.base] →
    p.2.independent = q.2.independent))

/-- Trees from markup are well-formed. -/
theorem treeWellFormed_of_treeCoherent {c : Conventions} (ht : c.TreeCoherent t) :
    t.TreeWellFormed := by
  intro x hx
  have hcoherent := ht x hx
  refine ⟨⟨hcoherent.bases_nodup, fun y hy => ?_, fun y hy => ?_⟩, ?_⟩
  · rw [hcoherent.nested_eq] at hy
    simpa using (List.mem_filter.mp hy).2
  · rw [hcoherent.independents_eq] at hy
    exact (List.mem_filter.mp hy).2
  · rw [hcoherent.nested_eq, hcoherent.independents_eq]
    have hsplit := List.filter_append_perm (fun y : Component => !y.independent) x.ordered
    simp only [Bool.not_not] at hsplit
    exact hsplit.symm

/-- Trees from markup agree, because the class at the end of a way decides the kind. -/
theorem kindsAgree_of_treeCoherent {c : Conventions} (ha : c.TreeCoherent a)
    (hb : c.TreeCoherent b) : KindsAgree a b := by
  intro p hp q hq hpq _
  rcases ha.of_mem_paths p hp with ⟨hplast, hpnode⟩
  rcases hb.of_mem_paths q hq with ⟨hqlast, hqnode⟩
  rw [hpq, hqlast, Option.some.injEq] at hplast
  rw [hpnode.root.kind, hqnode.root.kind, hplast]

/-! ## Merging two lists of distinct classes -/

section Append

variable {xs ys : List Component} {z : Component}

theorem mem_dedup_append (hxs : (xs.map base).Nodup) (hys : (ys.map base).Nodup)
    (hz : z ∈ dedup (xs ++ ys)) :
    (z ∈ xs ∧ z.base ∉ ys.map base) ∨ (z ∈ ys ∧ z.base ∉ xs.map base) ∨
      ∃ x ∈ xs, ∃ y ∈ ys, x.base = y.base ∧ z = merge x y := by
  obtain ⟨d, hd⟩ : ∃ d, z.base = d := ⟨_, rfl⟩
  -- only the nodes of the class matter, of which there is one in either list at most
  have hclass : z ∈ dedup ((xs.filter fun x => x.base = d) ++ ys.filter fun y => y.base = d) := by
    rw [← List.filter_append, ← dedup_filter (fun b => b = d)]
    exact List.mem_filter.mpr ⟨hz, decide_eq_true hd⟩
  rw [hd]
  by_cases hxd : d ∈ xs.map base
  · rcases List.mem_map.mp hxd with ⟨x, hx, rfl⟩
    rw [filter_base_eq hxs hx] at hclass
    by_cases hyd : x.base ∈ ys.map base
    · rcases List.mem_map.mp hyd with ⟨y, hy, he⟩
      rw [← he, filter_base_eq hys hy] at hclass
      have hmerged : dedup ([x] ++ [y]) = [merge x y] := if_pos he.symm
      rw [hmerged, List.mem_singleton] at hclass
      exact Or.inr (Or.inr ⟨x, hx, y, hy, he.symm, hclass⟩)
    · rw [filter_base_eq_nil hyd] at hclass
      obtain rfl : z = x := List.mem_singleton.mp hclass
      exact Or.inl ⟨hx, hyd⟩
  · rw [filter_base_eq_nil hxd] at hclass
    by_cases hyd : d ∈ ys.map base
    · rcases List.mem_map.mp hyd with ⟨y, hy, rfl⟩
      rw [filter_base_eq hys hy] at hclass
      obtain rfl : z = y := List.mem_singleton.mp hclass
      exact Or.inr (Or.inl ⟨hy, hxd⟩)
    · rw [filter_base_eq_nil hyd] at hclass
      cases hclass

theorem merge_mem_dedup_append (hxs : (xs.map base).Nodup) (hys : (ys.map base).Nodup)
    (hx : x ∈ xs) (hy : y ∈ ys) (hbase : x.base = y.base) : merge x y ∈ dedup (xs ++ ys) := by
  have hmem : x.base ∈ (dedup (xs ++ ys)).map base := by
    rw [dedup_bases, mem_unique, List.map_append]
    exact List.mem_append_left _ (List.mem_map_of_mem hx)
  rcases List.mem_map.mp hmem with ⟨z, hz, hzx⟩
  rcases mem_dedup_append hxs hys hz with ⟨_, hne⟩ | ⟨_, hne⟩ | ⟨x', hx', y', hy', he, rfl⟩
  · exact absurd (hzx.trans hbase ▸ List.mem_map_of_mem hy) hne
  · exact absurd (hzx ▸ List.mem_map_of_mem hx) hne
  · rw [merge_base] at hzx
    obtain rfl : x' = x := List.inj_on_of_nodup_map hxs hx' hx hzx
    obtain rfl : y' = y := List.inj_on_of_nodup_map hys hy' hy (he.symm.trans hbase)
    exact hz

end Append

/-! ## Merging two nodes -/

theorem merge_ofKind (a b : Component) (i : Bool) :
    (merge a b).ofKind i = dedup (a.ofKind i ++ b.ofKind i) := by
  cases i with
  | false => exact merge_nested a b
  | true => exact merge_independents a b

theorem mem_bases_merge_ofKind {i : Bool} {d : String} :
    d ∈ ((merge a b).ofKind i).map base ↔
      d ∈ (a.ofKind i).map base ∨ d ∈ (b.ofKind i).map base := by
  rw [merge_ofKind, dedup_bases, mem_unique, List.map_append, List.mem_append]

/-- Mergers are sorted whatever the nodes disagree about. -/
theorem Sorted.merge (ha : a.Sorted) (hb : b.Sorted) : (Component.merge a b).Sorted := by
  have hkind : ∀ (i : Bool) (xs : List Component), (∀ x ∈ xs, x.independent = i) →
      ∀ x ∈ dedup xs, x.independent = i := by
    intro i xs hxs
    refine dedup_induction (fun x y _ _ hy => ?_) hxs
    rw [merge_independent, hy]
  refine ⟨?_, ?_, ?_⟩
  · rw [merge_ordered, remap_bases]
    exact uniqueBy_keys_nodup _ _
  · rw [merge_nested]
    exact hkind false _ (List.forall_mem_append.mpr ⟨ha.elements, hb.elements⟩)
  · rw [merge_independents]
    exact hkind true _ (List.forall_mem_append.mpr ⟨ha.blocks, hb.blocks⟩)

/-- The classes in both lists of a merger are those that are an Element on one side and a Block on
the other. -/
theorem inBoth_merge_iff (ha : a.WellFormed) (hb : b.WellFormed) {d : String} :
    (merge a b).InBoth d ↔ ∃ x ∈ a.ordered, ∃ y ∈ b.ordered, x.base = d ∧ y.base = d ∧
      x.independent ≠ y.independent := by
  -- either list of the merger has the classes of the lists it was merged from
  have hboth : (merge a b).InBoth d ↔
      (d ∈ (a.ofKind false).map base ∨ d ∈ (b.ofKind false).map base) ∧
        (d ∈ (a.ofKind true).map base ∨ d ∈ (b.ofKind true).map base) :=
    and_congr (mem_bases_merge_ofKind (i := false)) (mem_bases_merge_ofKind (i := true))
  rw [hboth]
  constructor
  · rintro ⟨hn | hn, hi | hi⟩
    · exact absurd ⟨hn, hi⟩ (ha.not_inBoth d)
    · rcases ha.mem_bases_ofKind_iff.mp hn with ⟨x, hx, hxd, hxe⟩
      rcases hb.mem_bases_ofKind_iff.mp hi with ⟨y, hy, hyd, hyb⟩
      exact ⟨x, hx, y, hy, hxd, hyd, by simp [hxe, hyb]⟩
    · rcases ha.mem_bases_ofKind_iff.mp hi with ⟨x, hx, hxd, hxb⟩
      rcases hb.mem_bases_ofKind_iff.mp hn with ⟨y, hy, hyd, hye⟩
      exact ⟨x, hx, y, hy, hxd, hyd, by simp [hxb, hye]⟩
    · exact absurd ⟨hn, hi⟩ (hb.not_inBoth d)
  · rintro ⟨x, hx, y, hy, hxd, hyd, hne⟩
    have hxmem := ha.mem_bases_ofKind_iff.mpr ⟨x, hx, hxd, rfl⟩
    have hymem := hb.mem_bases_ofKind_iff.mpr ⟨y, hy, hyd, rfl⟩
    cases hxk : x.independent with
    | false =>
      have hyk : y.independent = true := by simpa [hxk] using hne.symm
      exact ⟨Or.inl (hxk ▸ hxmem), Or.inr (hyk ▸ hymem)⟩
    | true =>
      have hyk : y.independent = false := by simpa [hxk] using hne.symm
      exact ⟨Or.inr (hyk ▸ hymem), Or.inl (hxk ▸ hxmem)⟩

/-- A child of a merger comes from the list of its kind. -/
theorem mem_lists_of_mem_merge_ordered (ha : a.WellFormed) (hb : b.WellFormed)
    (hx : x ∈ (merge a b).ordered) : x ∈ (merge a b).nested ++ (merge a b).independents := by
  rw [merge_ordered, ← merge_nested, ← merge_independents, remap_eq_map] at hx
  rcases List.mem_map.mp hx with ⟨c, hc, rfl⟩
  -- some list has a node of the class, so one stands in
  have hclass : c.base ∈ ((merge a b).ofKind c.independent).map base := by
    rw [mem_bases_merge_ofKind, ha.mem_bases_ofKind_iff, hb.mem_bases_ofKind_iff]
    rcases List.mem_append.mp (mem_of_mem_uniqueBy _ hc) with hc | hc
    · exact Or.inl ⟨c, hc, rfl, rfl⟩
    · exact Or.inr ⟨c, hc, rfl, rfl⟩
  rcases hfound : standIn? (merge a b).nested (merge a b).independents c.base with _ | y
  · rw [standIn?_eq_none_iff] at hfound
    cases hkind : c.independent with
    | false => exact absurd (by rwa [hkind] at hclass) hfound.1
    | true => exact absurd (by rwa [hkind] at hclass) hfound.2
  · exact List.mem_append.mpr (mem_of_standIn? hfound).1

/-- What is in a list of a merger has its class in the order of the markup. -/
theorem base_mem_merge_ordered (ha : a.WellFormed) (hb : b.WellFormed) {i : Bool}
    (hx : x ∈ (merge a b).ofKind i) : x.base ∈ (merge a b).ordered.map base := by
  have hclass := mem_bases_merge_ofKind.mp (List.mem_map_of_mem hx)
  rw [ha.mem_bases_ofKind_iff, hb.mem_bases_ofKind_iff] at hclass
  rw [merge_ordered, remap_bases, map_uniqueBy, mem_unique, List.map_append, List.mem_append]
  rcases hclass with ⟨y, hy, he, _⟩ | ⟨y, hy, he, _⟩
  · exact Or.inl (he ▸ List.mem_map_of_mem hy)
  · exact Or.inr (he ▸ List.mem_map_of_mem hy)

/-- A merger is well-formed unless a class is in both of its lists. -/
theorem wellFormed_merge_iff (ha : a.WellFormed) (hb : b.WellFormed) :
    (merge a b).WellFormed ↔
      ∀ x ∈ a.ordered, ∀ y ∈ b.ordered, x.base = y.base → x.independent = y.independent := by
  constructor
  · intro h x hx y hy hbase
    by_contra hne
    exact h.not_inBoth y.base ((inBoth_merge_iff ha hb).mpr ⟨x, hx, y, hy, hbase, rfl, hne⟩)
  · intro hagree
    have hsorted := ha.toSorted.merge hb.toSorted
    have hdisjoint : ∀ d, ¬ (merge a b).InBoth d := by
      intro d hd
      rcases (inBoth_merge_iff ha hb).mp hd with ⟨x, hx, y, hy, hxd, hyd, hne⟩
      exact hne (hagree x hx y hy (hxd.trans hyd.symm))
    have hnodup : (((merge a b).nested ++ (merge a b).independents).map base).Nodup := by
      rw [List.map_append, List.nodup_append']
      refine ⟨?_, ?_, fun d hn hi => hdisjoint d ⟨hn, hi⟩⟩
      · rw [merge_nested]
        exact dedup_bases_nodup _
      · rw [merge_independents]
        exact dedup_bases_nodup _
    refine ⟨hsorted, ?_⟩
    rw [List.perm_ext_iff_of_nodup hsorted.bases_nodup.of_map hnodup.of_map]
    refine fun z => ⟨mem_lists_of_mem_merge_ordered ha hb, fun hz => ?_⟩
    -- a child of the class of `z` stands in the order of the markup, and is `z`
    have hclass : z.base ∈ (merge a b).ordered.map base := by
      rcases List.mem_append.mp hz with hz | hz
      · exact base_mem_merge_ordered ha hb (i := false) hz
      · exact base_mem_merge_ordered ha hb (i := true) hz
    rcases List.mem_map.mp hclass with ⟨y, hy, he⟩
    have hlists := mem_lists_of_mem_merge_ordered ha hb hy
    exact List.inj_on_of_nodup_map hnodup hlists hz he ▸ hy

/-- In a well-formed merger, a child is a child of one node or the merger of a child of either. -/
theorem cases_of_mem_merge_ordered (ha : a.WellFormed) (hb : b.WellFormed) {z : Component}
    (hz : z ∈ (merge a b).ordered) :
    z ∈ a.ordered ∨ z ∈ b.ordered ∨
      ∃ x ∈ a.ordered, ∃ y ∈ b.ordered, x.base = y.base ∧ z = merge x y := by
  obtain ⟨i, hi⟩ : ∃ i, z ∈ (merge a b).ofKind i := by
    rcases List.mem_append.mp (mem_lists_of_mem_merge_ordered ha hb hz) with hz | hz
    · exact ⟨false, hz⟩
    · exact ⟨true, hz⟩
  rw [merge_ofKind] at hi
  rcases mem_dedup_append (ha.nodup_bases_ofKind i) (hb.nodup_bases_ofKind i) hi with
    ⟨h, _⟩ | ⟨h, _⟩ | ⟨x, hx, y, hy, hbase, rfl⟩
  · exact Or.inl (ha.mem_ofKind_iff.mp h).1
  · exact Or.inr (Or.inl (hb.mem_ofKind_iff.mp h).1)
  · exact Or.inr (Or.inr
      ⟨x, (ha.mem_ofKind_iff.mp hx).1, y, (hb.mem_ofKind_iff.mp hy).1, hbase, rfl⟩)

theorem merge_mem_merge_ordered (ha : a.WellFormed) (hb : b.WellFormed)
    (hmerge : (merge a b).WellFormed) (hx : x ∈ a.ordered) (hy : y ∈ b.ordered)
    (hbase : x.base = y.base) : merge x y ∈ (merge a b).ordered := by
  have hkind := (wellFormed_merge_iff ha hb).mp hmerge x hx y hy hbase
  have hmem : merge x y ∈ (merge a b).ofKind y.independent := by
    rw [merge_ofKind]
    exact merge_mem_dedup_append (ha.nodup_bases_ofKind _) (hb.nodup_bases_ofKind _)
      (ha.mem_ofKind_iff.mpr ⟨hx, hkind⟩) (hb.mem_ofKind_iff.mpr ⟨hy, rfl⟩) hbase
  exact (hmerge.mem_ofKind_iff.mp hmem).1

/-! ## Merging two trees -/

/-- Only the root is reached by its class alone. -/
theorem eq_root_of_mem_paths {p : List String × Component} (hp : p ∈ x.paths)
    (hroot : p.1 = [x.base]) : p.2 = x := by
  rcases mem_paths.mp hp with rfl | ⟨y, _, q, hq, rfl⟩
  · rfl
  · have hnil : q.1 = [] := (List.cons.inj hroot).2
    have hhead := head?_of_mem_paths hq
    simp [hnil] at hhead

theorem kindsAgree_iff (hbase : a.base = b.base) :
    KindsAgree a b ↔ ∀ x ∈ a.ordered, ∀ y ∈ b.ordered, x.base = y.base →
      x.independent = y.independent ∧ KindsAgree x y := by
  have hlonger : ∀ {x : Component} {p : List String × Component}, p ∈ x.paths →
      a.base :: p.1 ≠ [a.base] := by
    intro x p hp he
    have hhead := head?_of_mem_paths hp
    simp [(List.cons.inj he).2] at hhead
  constructor
  · intro h x hx y hy he
    have hbelow : ∀ p ∈ x.paths, ∀ q ∈ y.paths, p.1 = q.1 → p.2.independent = q.2.independent := by
      intro p hp q hq hpq
      exact h (a.base :: p.1, p.2) (mem_paths.mpr (Or.inr ⟨x, hx, p, hp, rfl⟩))
        (b.base :: q.1, q.2) (mem_paths.mpr (Or.inr ⟨y, hy, q, hq, rfl⟩))
        (congrArg₂ List.cons hbase hpq) (hlonger hp)
    exact ⟨hbelow _ (mem_paths.mpr (Or.inl rfl)) _ (mem_paths.mpr (Or.inl rfl)) (by rw [he]),
      fun p hp q hq hpq _ => hbelow p hp q hq hpq⟩
  · intro h p hp q hq hpq hroot
    rcases mem_paths.mp hp with rfl | ⟨x, hx, r, hr, rfl⟩
    · exact absurd rfl hroot
    · rcases mem_paths.mp hq with rfl | ⟨y, hy, s, hs, rfl⟩
      · exact absurd (hpq.trans (by rw [hbase])) hroot
      · have htail : r.1 = s.1 := (List.cons.inj hpq).2
        have he : x.base = y.base := by
          have hhead := head?_of_mem_paths hr
          rw [htail, head?_of_mem_paths hs] at hhead
          exact (Option.some.inj hhead).symm
        by_cases hchild : r.1 = [x.base]
        · -- the two children themselves
          rw [eq_root_of_mem_paths hr hchild,
            eq_root_of_mem_paths hs (by rw [← htail, hchild, he])]
          exact (h x hx y hy he).1
        · exact (h x hx y hy he).2 r hr s hs htail hchild

theorem treeWellFormed_merge_iff (ha : a.TreeWellFormed) (hb : b.TreeWellFormed)
    (hbase : a.base = b.base) : (merge a b).TreeWellFormed ↔ KindsAgree a b := by
  -- along the first tree, since a child of it may be merged with any child of the second
  induction a using ordered_induction generalizing b with
  | hstep a ih =>
    rw [treeWellFormed_iff] at ha hb
    rw [treeWellFormed_iff, wellFormed_merge_iff ha.1 hb.1, kindsAgree_iff hbase]
    constructor
    · rintro ⟨hnode, hbelow⟩ x hx y hy he
      have hmerge := (wellFormed_merge_iff ha.1 hb.1).mpr hnode
      exact ⟨hnode x hx y hy he, (ih x hx (ha.2 x hx) (hb.2 y hy) he).mp
        (hbelow _ (merge_mem_merge_ordered ha.1 hb.1 hmerge hx hy he))⟩
    · intro h
      refine ⟨fun x hx y hy he => (h x hx y hy he).1, fun z hz => ?_⟩
      rcases cases_of_mem_merge_ordered ha.1 hb.1 hz with hz | hz | ⟨x, hx, y, hy, he, rfl⟩
      · exact ha.2 z hz
      · exact hb.2 z hz
      · exact (ih x hx (ha.2 x hx) (hb.2 y hy) he).mpr (h x hx y hy he).2

/-- The merger of well-formed trees is well-formed exactly if no classes lead to an Element in one tree
and to a Block in the other. At the nodes themselves, a class gets into both lists exactly if it is an
Element on one side and a Block on the other. All else that is asked of the lists always holds. -/
theorem merge_of_treeWellFormed (ha : a.TreeWellFormed) (hb : b.TreeWellFormed)
    (hbase : a.base = b.base) :
    ((merge a b).TreeWellFormed ↔ KindsAgree a b) ∧
      (∀ d, (merge a b).InBoth d ↔ ∃ x ∈ a.ordered, ∃ y ∈ b.ordered, x.base = d ∧ y.base = d ∧
        x.independent ≠ y.independent) ∧
      ∀ x : Component, x.IsNodeOf (merge a b) → x.Sorted := by
  have hroota := (treeWellFormed_iff.mp ha).1
  have hrootb := (treeWellFormed_iff.mp hb).1
  refine ⟨treeWellFormed_merge_iff ha hb hbase, fun d => inBoth_merge_iff hroota hrootb, ?_⟩
  exact forall_isNodeOf_merge (fun a b _ ha hb => (ha a (.root a)).merge (hb b (.root b))) hbase
    (fun x hx => (ha x hx).toSorted) fun x hx => (hb x hx).toSorted

/-- Two lists with an item, which has a Block in the one and an Element in the other. -/
theorem merge_of_agreeing_lists :
    let leaf (name : String) (block : Bool) : Component :=
      .mk name block [] [] [] [] [] [] "" false false
    let item (nested independents : List Component) : Component :=
      .mk "item" false [] [] [] nested independents (independents ++ nested) "" false false
    let list (item : Component) : Component :=
      .mk "item-list" true [] [] [] [item] [] [item] "" false false
    let a := list (item [] [leaf "item-card" true])
    let b := list (item [leaf "note" false] [leaf "item-card" true])
    a.TreeWellFormed ∧ b.TreeWellFormed ∧ a.base = b.base ∧
      (merge a b).paths.map Prod.fst = [["item-list"], ["item-list", "item"],
        ["item-list", "item", "item-card"], ["item-list", "item", "note"]] ∧
      (merge a b).TreeWellFormed := by
  intro leaf item list a b
  have ha : a.TreeWellFormed := by decide +kernel
  have hb : b.TreeWellFormed := by decide +kernel
  refine ⟨ha, hb, rfl, by decide +kernel, ?_⟩
  exact (merge_of_treeWellFormed ha hb rfl).1.mpr (by decide +kernel)

/-- Two boxes, of which one has an Element and the other a Block of the same class: their merger has
both, and the one in the order of the markup is the Element. -/
theorem merge_of_disagreeing_boxes :
    let odd (block : Bool) : Component := .mk "odd" block [] [] [] [] [] [] "" false false
    let a : Component := .mk "a-b" true [] [] [] [odd false] [] [odd false] "" false false
    let b : Component := .mk "a-b" true [] [] [] [] [odd true] [odd true] "" false false
    a.TreeWellFormed ∧ b.TreeWellFormed ∧ a.base = b.base ∧ ¬ (merge a b).WellFormed ∧
      (merge a b).nested = [odd false] ∧ (merge a b).independents = [odd true] ∧
      (merge a b).ordered = [odd false] := by
  decide +kernel

end BlockMarkup.Component
