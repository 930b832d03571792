import BlockMarkup.Proofs.Component.Gathers

/-! # Which nodes are marked as roots

Building and merging mark no node as the root of a page (`unmarked_of_build`, `Unmarked.merge`), so
in the trees that files are generated for, only the root of the tree may be marked.
-/

namespace BlockMarkup

open Markup (Node)
open Component (base)

namespace Component

/-- No node of the tree is marked as the root of a page. -/
def Unmarked (t : Component) : Prop := ∀ p ∈ t.paths, p.2.isRoot = false

variable {a b t : Component}

theorem unmarked_iff : t.Unmarked ↔ t.isRoot = false ∧ ∀ y ∈ t.ordered, y.Unmarked := by
  constructor
  · intro h
    refine ⟨h _ (mem_paths.mpr (Or.inl rfl)), fun y hy p hp => ?_⟩
    exact h (t.base :: p.1, p.2) (mem_paths.mpr (Or.inr ⟨y, hy, p, hp, rfl⟩))
  · rintro ⟨hroot, hbelow⟩ p hp
    rcases mem_paths.mp hp with rfl | ⟨y, hy, q, hq, rfl⟩
    · exact hroot
    · exact hbelow y hy q hq

theorem merge_isRoot (a b : Component) : (merge a b).isRoot = a.isRoot := by
  rw [merge_eq]
  rfl

theorem Unmarked.markDeep (h : t.Unmarked) : t.markDeep.Unmarked := by
  rw [unmarked_iff] at h ⊢
  cases t
  exact h

theorem Unmarked.withRoot (h : t.Unmarked) : (t.withRoot false).Unmarked := by
  rw [unmarked_iff] at h ⊢
  cases t
  exact ⟨rfl, h.2⟩

variable {c : Conventions}

theorem Unmarked.of_mem_paths {t : Component} (ht : c.TreeCoherent t) :
    t.Unmarked → ∀ p ∈ t.paths, p.2.Unmarked := by
  refine ht.induction ?_
  clear ht t
  intro t ht ih h p hp
  rcases mem_paths.mp hp with rfl | ⟨y, hy, q, hq, rfl⟩
  · exact h
  · exact ih y hy ((unmarked_iff.mp h).2 y hy) q hq

theorem unmarked_iff_forall_isNodeOf (ht : c.TreeCoherent t) :
    t.Unmarked ↔ ∀ x : Component, x.IsNodeOf t → x.isRoot = false := by
  constructor
  · intro h x hx
    rcases ht.exists_mem_paths x hx with ⟨p, hp, rfl⟩
    exact h p hp
  · exact fun h p hp => h _ (isNodeOf_of_mem_paths hp)

theorem Unmarked.merge (ha : a.Unmarked) (hb : b.Unmarked) (hca : c.TreeCoherent a)
    (hcb : c.TreeCoherent b) (hbase : a.base = b.base) : (Component.merge a b).Unmarked := by
  rw [unmarked_iff_forall_isNodeOf hca] at ha
  rw [unmarked_iff_forall_isNodeOf hcb] at hb
  rw [unmarked_iff_forall_isNodeOf (hca.merge hcb hbase)]
  refine forall_isNodeOf_merge ?_ hbase ha hb
  intro a b _ ha _
  rw [merge_isRoot]
  exact ha a (.root a)

theorem unmarked_dedup {ts : List Component} (h : ∀ t ∈ ts, t.Unmarked)
    (hc : ∀ t ∈ ts, c.TreeCoherent t) : ∀ t ∈ dedup ts, t.Unmarked := by
  have hstep : ∀ x y : Component, x.base = y.base → x.Unmarked ∧ c.TreeCoherent x →
      y.Unmarked ∧ c.TreeCoherent y →
      (Component.merge x y).Unmarked ∧ c.TreeCoherent (Component.merge x y) :=
    fun x y he hx hy => ⟨hx.1.merge hy.1 hx.2 hy.2 he, hx.2.merge hy.2 he⟩
  exact fun t ht => (dedup_induction hstep (fun u hu => ⟨h u hu, hc u hu⟩) t ht).1

end Component

namespace Conventions

open Component (Unmarked)

variable {c : Conventions}

theorem keptByBuilding_unmarked :
    c.KeptByBuilding fun t => t.Unmarked ∧ c.TreeCoherent t where
  component _ _ _ _ _ _ hfound :=
    ⟨Component.unmarked_iff.mpr ⟨rfl, Component.unmarked_dedup (fun t ht => (hfound t ht).1)
      fun t ht => (hfound t ht).2⟩,
      treeCoherent_component (fun t ht => (hfound t ht).2) _ _ _ _⟩
  markDeep _ h := ⟨h.1.markDeep, h.2.markDeep⟩

theorem unmarked_of_build (depth : Nat) (n : Node) (t : Component)
    (h : c.build depth n = some t) : t.Unmarked :=
  (keptByBuilding_unmarked.of_build depth n t h).1

end Conventions

end BlockMarkup
