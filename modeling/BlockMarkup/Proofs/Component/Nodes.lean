import BlockMarkup.Proofs.Component.Merge
import BlockMarkup.Proofs.Component.Route

/-! # The nodes of a tree

What holds of all nodes of two trees holds of all nodes of their merger if mergers keep it
(`forall_isNodeOf_merge`), and what is passed on from the trees below an element to the tree of the
element holds of all trees that are built (`Conventions.KeptByBuilding.of_build`). Neither asks that
the lists of children fit together, so both may be used to show that they do.
-/

namespace BlockMarkup

namespace Component

/-- `x.IsNodeOf t` says that `x` is the root of `t` or stands somewhere below it, in whichever of
the lists of children. -/
inductive IsNodeOf : Component → Component → Prop where
  | root (t : Component) : IsNodeOf t t
  | nested {x y t : Component} : y ∈ t.nested → IsNodeOf x y → IsNodeOf x t
  | independents {x y t : Component} : y ∈ t.independents → IsNodeOf x y → IsNodeOf x t
  | ordered {x y t : Component} : y ∈ t.ordered → IsNodeOf x y → IsNodeOf x t

theorem sizeOf_lt_of_mem_ordered {y t : Component} (h : y ∈ t.ordered) : sizeOf y < sizeOf t := by
  have hlist := List.sizeOf_lt_of_mem h
  cases t
  simp only [ordered, mk.sizeOf_spec] at hlist ⊢
  omega

/-- Induction over a tree, along the list in the order of the markup. -/
theorem ordered_induction {P : Component → Prop} (hstep : ∀ t, (∀ y ∈ t.ordered, P y) → P t)
    (t : Component) : P t :=
  hstep t fun y hy => by
    have hlt := sizeOf_lt_of_mem_ordered hy
    exact ordered_induction hstep y
termination_by sizeOf t
decreasing_by exact hlt

variable {P : Component → Prop}

/-- What holds of all nodes of a tree holds of its root and of the nodes below. -/
theorem forall_isNodeOf_iff {t : Component} :
    (∀ y, y.IsNodeOf t → P y) ↔
      P t ∧ ∀ z ∈ t.nested ++ t.independents ++ t.ordered, ∀ y, y.IsNodeOf z → P y := by
  simp only [List.mem_append]
  constructor
  · intro h
    refine ⟨h t (.root t), fun z hz y hy => h y ?_⟩
    rcases hz with (hz | hz) | hz
    · exact .nested hz hy
    · exact .independents hz hy
    · exact .ordered hz hy
  · rintro ⟨ht, hbelow⟩ y hy
    cases hy with
    | root => exact ht
    | nested hz hy => exact hbelow _ (Or.inl (Or.inl hz)) y hy
    | independents hz hy => exact hbelow _ (Or.inl (Or.inr hz)) y hy
    | ordered hz hy => exact hbelow _ (Or.inr hz) y hy

theorem IsNodeOf.trans {x y t : Component} (hx : x.IsNodeOf y) (hy : y.IsNodeOf t) :
    x.IsNodeOf t := by
  induction hy with
  | root => exact hx
  | nested h _ ih => exact .nested h ih
  | independents h _ ih => exact .independents h ih
  | ordered h _ ih => exact .ordered h ih

/-- Another mark of the root leaves the nodes below it alone. -/
theorem forall_isNodeOf_withRoot {t : Component} {isRoot : Bool} (hroot : P (t.withRoot isRoot))
    (h : ∀ x, x.IsNodeOf t → P x) : ∀ x, x.IsNodeOf (t.withRoot isRoot) → P x := by
  rw [forall_isNodeOf_iff] at h ⊢
  cases t
  exact ⟨hroot, h.2⟩

theorem forall_isNodeOf_markDeep {t : Component} (hroot : P t.markDeep)
    (h : ∀ x, x.IsNodeOf t → P x) : ∀ x, x.IsNodeOf t.markDeep → P x := by
  rw [forall_isNodeOf_iff] at h ⊢
  cases t
  exact ⟨hroot, h.2⟩

/-! ## Merging -/

/-- What holds of all nodes of two trees holds of all nodes of their merger, if it holds of the
merger itself. -/
theorem forall_isNodeOf_merge
    (hmerge : ∀ a b, a.base = b.base → (∀ x, x.IsNodeOf a → P x) → (∀ x, x.IsNodeOf b → P x) →
      P (merge a b))
    {a b : Component} (hbase : a.base = b.base) (ha : ∀ x, x.IsNodeOf a → P x)
    (hb : ∀ x, x.IsNodeOf b → P x) : ∀ x, x.IsNodeOf (merge a b) → P x := by
  obtain ⟨n, han, hbn⟩ : ∃ n, a.height ≤ n ∧ b.height ≤ n :=
    ⟨max a.height b.height, Nat.le_max_left .., Nat.le_max_right ..⟩
  induction n using Nat.strongRecOn generalizing a b with
  | ind n ih =>
    -- the mergers below `a` and `b` are of lower nodes
    let R (z : Component) : Prop := (∀ x, x.IsNodeOf z → P x) ∧ z.height < n
    have hstep : ∀ y z : Component, y.base = z.base → R y → R z → R (merge y z) := by
      rintro y z he ⟨hy, hyn⟩ ⟨hz, hzn⟩
      exact ⟨ih (n - 1) (by omega) he hy hz (by omega) (by omega), height_merge_lt hyn hzn⟩
    have hlowa := height_le.mp han
    have hlowb := height_le.mp hbn
    have hnested : ∀ z ∈ (merge a b).nested, R z := by
      rw [merge_nested]
      refine dedup_induction hstep fun z hz => ?_
      rcases List.mem_append.mp hz with hz | hz
      · exact ⟨fun x hx => ha x (.nested hz hx), hlowa.1 z hz⟩
      · exact ⟨fun x hx => hb x (.nested hz hx), hlowb.1 z hz⟩
    have hindependents : ∀ z ∈ (merge a b).independents, R z := by
      rw [merge_independents]
      refine dedup_induction hstep fun z hz => ?_
      rcases List.mem_append.mp hz with hz | hz
      · exact ⟨fun x hx => ha x (.independents hz hx), hlowa.2 z hz⟩
      · exact ⟨fun x hx => hb x (.independents hz hx), hlowb.2 z hz⟩
    rw [forall_isNodeOf_iff]
    refine ⟨hmerge a b hbase ha hb, fun z hz => ?_⟩
    rcases List.mem_append.mp hz with hz | hz
    · rcases List.mem_append.mp hz with hz | hz
      · exact (hnested z hz).1
      · exact (hindependents z hz).1
    · rw [merge_ordered, ← merge_nested, ← merge_independents] at hz
      rcases mem_of_mem_remap hz with hz | hz | hz
      · exact (hnested z hz).1
      · exact (hindependents z hz).1
      · -- a child that is in no list of `a` and `b` but that in the order of the markup
        rcases List.mem_append.mp (mem_of_mem_uniqueBy _ hz) with hz | hz
        · exact fun x hx => ha x (.ordered hz hx)
        · exact fun x hx => hb x (.ordered hz hx)

theorem forall_isNodeOf_dedup
    (hmerge : ∀ a b, a.base = b.base → (∀ x, x.IsNodeOf a → P x) → (∀ x, x.IsNodeOf b → P x) →
      P (merge a b))
    {ts : List Component} (h : ∀ t ∈ ts, ∀ x, x.IsNodeOf t → P x) :
    ∀ t ∈ dedup ts, ∀ x, x.IsNodeOf t → P x :=
  dedup_induction (fun _ _ he ha hb => forall_isNodeOf_merge hmerge he ha hb) h

end Component

/-! ## Building -/

namespace Conventions

open Markup (Node)

variable {c : Conventions} {P : Component → Prop}

/-- The property holds of the node for an element if it holds of what is found below the element, and
of a node marked as deep if it holds of the node. -/
structure KeptByBuilding (c : Conventions) (P : Component → Prop) : Prop where
  component : ∀ (name : String) (attributes : List (String × String)) (base : String)
    (modifiers : List String) (found : List Component),
    Text.words ((attributes.lookup "class").getD "") = base :: modifiers → (∀ t ∈ found, P t) →
      P (c.component name attributes base modifiers found)
  markDeep : ∀ t, P t → P t.markDeep

mutual

theorem KeptByBuilding.of_build (hP : c.KeptByBuilding P) (depth : Nat) :
    ∀ n : Node, ∀ t, c.build depth n = some t → P t
  | .leaf .. => by
    intro t h
    simp [build] at h
  | .element name attributes children => by
    intro t h
    obtain ⟨-, base, modifiers, hwords, rfl⟩ := build_element_eq_some_iff.mp h
    exact hP.component _ _ _ _ _ hwords (hP.of_found (depth + 1) false children)

theorem KeptByBuilding.of_below (hP : c.KeptByBuilding P) (depth : Nat) :
    ∀ n : Node, ∀ t ∈ c.below depth n, P t
  | .leaf .. => by
    intro t h
    simp [below] at h
  | .element name attributes children => by
    intro t h
    rw [below] at h
    split at h
    · cases h
    · exact hP.of_found (depth + 1) true children t h

theorem KeptByBuilding.of_found (hP : c.KeptByBuilding P) (depth : Nat) (deep : Bool) :
    ∀ ns : List Node, ∀ t ∈ c.found depth deep ns, P t
  | [] => by
    intro t h
    simp [found] at h
  | n :: rest => by
    intro t h
    rw [found, List.mem_append] at h
    rcases h with h | h
    · split at h
      · rename_i x hx
        have hbuilt := hP.of_build depth n x hx
        rw [List.mem_singleton] at h
        subst h
        cases deep with
        | false => exact hbuilt
        | true => exact hP.markDeep x hbuilt
      · exact hP.of_below depth n t h
    · exact hP.of_found depth deep rest t h

end

end Conventions

end BlockMarkup
