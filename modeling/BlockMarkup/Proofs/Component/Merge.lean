import Mathlib.Data.List.Induction
import Mathlib.Data.List.Nodup
import BlockMarkup.Component.Merge
import BlockMarkup.Proofs.FirstOccurrence

/-! # Merging, level by level

`mergeTo` counts the levels that are still to be merged. The count is only there to make the
recursion structural: `merge` passes enough levels, and `merge_eq` states the recursion without
them. The rest of the file says what merging a list does: which classes stand in the result
(`dedup_bases`), where each of its nodes comes from (`dedup_traces`), and how the children of a
merged node are put in the order of the markup (`remap_partition`).
-/

namespace BlockMarkup.Component

/-! ## Heights -/

theorem heightOfAll_le {xs : List Component} {k : Nat} :
    heightOfAll xs ≤ k ↔ ∀ x ∈ xs, x.height + 1 ≤ k := by
  induction xs with
  | nil => simp [heightOfAll]
  | cons x rest ih =>
    rw [heightOfAll, Nat.max_le, ih, List.forall_mem_cons]

theorem height_le {x : Component} {k : Nat} :
    x.height ≤ k ↔
      (∀ y ∈ x.nested, y.height + 1 ≤ k) ∧ (∀ y ∈ x.independents, y.height + 1 ≤ k) := by
  cases x
  rw [height, Nat.max_le, heightOfAll_le, heightOfAll_le]
  exact Iff.rfl

/-- The nodes directly below two nodes are lower than a bound on both. -/
theorem height_le_of_mem_children {a b y : Component} {k : Nat} (ha : a.height ≤ k + 1)
    (hb : b.height ≤ k + 1)
    (hy : y ∈ a.nested ++ b.nested ∨ y ∈ a.independents ++ b.independents) : y.height ≤ k := by
  rw [height_le] at ha hb
  rw [List.mem_append, List.mem_append] at hy
  rcases hy with (h | h) | (h | h)
  · exact Nat.le_of_succ_le_succ (ha.1 y h)
  · exact Nat.le_of_succ_le_succ (hb.1 y h)
  · exact Nat.le_of_succ_le_succ (ha.2 y h)
  · exact Nat.le_of_succ_le_succ (hb.2 y h)

theorem children_nil_of_height_zero {x : Component} (h : x.height ≤ 0) :
    x.nested = [] ∧ x.independents = [] := by
  rw [height_le] at h
  constructor
  · exact List.eq_nil_iff_forall_not_mem.mpr fun y hy => absurd (h.1 y hy) (by omega)
  · exact List.eq_nil_iff_forall_not_mem.mpr fun y hy => absurd (h.2 y hy) (by omega)

/-! ## Absorbing a node -/

section Absorb

variable {m m' : Component → Component → Component}

/-- Where a node of the result comes from: it was there before, or it is the merger with the
new node, or it is the new node itself. -/
theorem mem_absorb {x y : Component} {xs : List Component} (hnodup : (xs.map base).Nodup)
    (hy : y ∈ absorb m x xs) :
    (y ∈ xs ∧ y.base ≠ x.base) ∨ (∃ c ∈ xs, c.base = x.base ∧ y = m c x) ∨
      (y = x ∧ ∀ c ∈ xs, c.base ≠ x.base) := by
  induction xs with
  | nil => exact Or.inr (Or.inr ⟨by simpa [absorb] using hy, by simp⟩)
  | cons c rest ih =>
    rw [List.map_cons, List.nodup_cons] at hnodup
    rw [absorb] at hy
    split at hy
    · -- the classes are distinct, so no later node has the class of `x`
      rename_i hc
      rcases List.mem_cons.mp hy with rfl | hy
      · exact Or.inr (Or.inl ⟨c, List.mem_cons_self, hc, rfl⟩)
      · refine Or.inl ⟨List.mem_cons_of_mem _ hy, ?_⟩
        intro he
        exact hnodup.1 (hc.trans he.symm ▸ List.mem_map_of_mem hy)
    · rename_i hc
      rcases List.mem_cons.mp hy with rfl | hy
      · exact Or.inl ⟨List.mem_cons_self, hc⟩
      · rcases ih hnodup.2 hy with ⟨h, he⟩ | ⟨c', h, he⟩ | ⟨h, hne⟩
        · exact Or.inl ⟨List.mem_cons_of_mem _ h, he⟩
        · exact Or.inr (Or.inl ⟨c', List.mem_cons_of_mem _ h, he⟩)
        · refine Or.inr (Or.inr ⟨h, ?_⟩)
          intro c' hc'
          rcases List.mem_cons.mp hc' with rfl | hc'
          · exact hc
          · exact hne c' hc'

theorem absorb_bases (hm : ∀ a b, (m a b).base = a.base) (x : Component) (xs : List Component) :
    (absorb m x xs).map base =
      if x.base ∈ xs.map base then xs.map base else xs.map base ++ [x.base] := by
  induction xs with
  | nil => rfl
  | cons c rest ih =>
    rw [absorb]
    by_cases hc : c.base = x.base
    · simp [hc, hm]
    · have hne : x.base ≠ c.base := fun h => hc h.symm
      rw [if_neg hc, List.map_cons, ih]
      by_cases hr : x.base ∈ rest.map base
      · rw [if_pos hr, if_pos (by rw [List.map_cons]; exact List.mem_cons_of_mem _ hr)]
        rfl
      · rw [if_neg hr, if_neg (by rw [List.map_cons, List.mem_cons]; exact not_or.mpr ⟨hne, hr⟩)]
        rfl

theorem dedupWith_concat (xs : List Component) (x : Component) :
    dedupWith m (xs ++ [x]) = absorb m x (dedupWith m xs) := by
  simp [dedupWith]

theorem absorb_induction {P : Component → Prop}
    (hm : ∀ a b, a.base = b.base → P a → P b → P (m a b)) {x : Component} (hx : P x)
    {xs : List Component} (h : ∀ c ∈ xs, P c) : ∀ y ∈ absorb m x xs, P y := by
  induction xs with
  | nil => simpa [absorb] using hx
  | cons c rest ih =>
    rw [List.forall_mem_cons] at h
    rw [absorb]
    split
    · rename_i hc
      rw [List.forall_mem_cons]
      exact ⟨hm c x hc h.1 hx, h.2⟩
    · rw [List.forall_mem_cons]
      exact ⟨h.1, ih h.2⟩

theorem absorb_congr {x : Component} {xs : List Component} (h : ∀ c ∈ xs, m c x = m' c x) :
    absorb m x xs = absorb m' x xs := by
  induction xs with
  | nil => rfl
  | cons c rest ih =>
    rw [List.forall_mem_cons] at h
    rw [absorb, absorb, h.1, ih h.2]

/-- A property that mergers keep holds of every merged node. -/
theorem dedupWith_induction {P : Component → Prop}
    (hm : ∀ a b, a.base = b.base → P a → P b → P (m a b)) {xs : List Component}
    (h : ∀ x ∈ xs, P x) : ∀ y ∈ dedupWith m xs, P y := by
  induction xs using List.reverseRecOn with
  | nil => simp [dedupWith]
  | append_singleton xs x ih =>
    rw [dedupWith_concat]
    exact absorb_induction hm (h x (by simp)) (ih fun y hy => h y (List.mem_append_left _ hy))

/-- Every class of the list stands once in the result, where it was first met. -/
theorem dedupWith_bases (hm : ∀ a b, (m a b).base = a.base) (xs : List Component) :
    (dedupWith m xs).map base = unique (xs.map base) := by
  induction xs using List.reverseRecOn with
  | nil => rfl
  | append_singleton xs x ih =>
    rw [dedupWith_concat, absorb_bases hm, ih, List.map_append, List.map_singleton, unique_concat]
    simp only [mem_unique]

/-- Two ways of merging that agree on the nodes at hand give the same list. -/
theorem dedupWith_congr {P : Component → Prop}
    (hm : ∀ a b, P a → P b → m a b = m' a b ∧ P (m' a b)) {xs : List Component}
    (h : ∀ x ∈ xs, P x) : dedupWith m xs = dedupWith m' xs := by
  induction xs using List.reverseRecOn with
  | nil => rfl
  | append_singleton xs x ih =>
    have hxs : ∀ y ∈ xs, P y := fun y hy => h y (List.mem_append_left _ hy)
    -- what has been merged so far has the property too, so the next merger is the same
    have hkept : ∀ y ∈ dedupWith m' xs, P y :=
      dedupWith_induction (fun a b _ ha hb => (hm a b ha hb).2) hxs
    rw [dedupWith_concat, dedupWith_concat, ih hxs]
    exact absorb_congr fun c hc => (hm c x (hkept c hc) (h x (by simp))).1

end Absorb
/-! ## Levels do not matter -/

/-- The node that merging puts together, given how lists of children are merged. -/
def assemble (dedup : List Component → List Component) (a b : Component) : Component :=
  .mk a.base b.independent (unique (a.modifiers ++ b.modifiers))
    (AttributeSelector.dedup (a.variants ++ b.variants))
    (AttributeSelector.dedup (a.states ++ b.states))
    (dedup (a.nested ++ b.nested)) (dedup (a.independents ++ b.independents))
    (remap (dedup (a.nested ++ b.nested)) (dedup (a.independents ++ b.independents))
      (uniqueBy base (a.ordered ++ b.ordered)))
    a.tag a.isRoot (a.viaDeep && b.viaDeep)

@[simp] theorem assemble_nested (f : List Component → List Component) (a b : Component) :
    (assemble f a b).nested = f (a.nested ++ b.nested) := rfl

@[simp] theorem assemble_independents (f : List Component → List Component) (a b : Component) :
    (assemble f a b).independents = f (a.independents ++ b.independents) := rfl

theorem mergeTo_zero (a b : Component) : mergeTo 0 a b = assemble id a b := by
  rw [mergeTo]
  rfl

theorem mergeTo_succ (n : Nat) (a b : Component) :
    mergeTo (n + 1) a b = assemble (dedupWith (mergeTo n)) a b := by
  rw [mergeTo]
  rfl

theorem assemble_congr {f g : List Component → List Component} {a b : Component}
    (hnested : f (a.nested ++ b.nested) = g (a.nested ++ b.nested))
    (hindependents : f (a.independents ++ b.independents) = g (a.independents ++ b.independents)) :
    assemble f a b = assemble g a b := by
  rw [assemble, assemble, hnested, hindependents]

/-- Merging does not add levels, and levels beyond those of both nodes change nothing. -/
theorem mergeTo_stable (n : Nat) : ∀ a b : Component, a.height ≤ n → b.height ≤ n →
    (∀ k, n ≤ k → mergeTo k a b = mergeTo n a b) ∧ (mergeTo n a b).height ≤ n := by
  induction n with
  | zero =>
    intro a b ha hb
    rcases children_nil_of_height_zero ha with ⟨han, hai⟩
    rcases children_nil_of_height_zero hb with ⟨hbn, hbi⟩
    refine ⟨?_, ?_⟩
    · intro k _
      cases k with
      | zero => rfl
      | succ k =>
        rw [mergeTo_succ, mergeTo_zero]
        exact assemble_congr (by simp [han, hbn, dedupWith]) (by simp [hai, hbi, dedupWith])
    · rw [mergeTo_zero, height_le]
      simp [han, hbn, hai, hbi]
  | succ n ih =>
    intro a b ha hb
    have hlow := fun y => height_le_of_mem_children (y := y) ha hb
    have hkept : ∀ x y : Component, x.base = y.base → x.height ≤ n → y.height ≤ n →
        (mergeTo n x y).height ≤ n := fun x y _ hx hy => (ih x y hx hy).2
    refine ⟨?_, ?_⟩
    · -- one level down, both counts suffice
      intro k hk
      obtain ⟨j, rfl⟩ : ∃ j, k = j + 1 := ⟨k - 1, by omega⟩
      have hagree : ∀ x y : Component, x.height ≤ n → y.height ≤ n →
          mergeTo j x y = mergeTo n x y ∧ (mergeTo n x y).height ≤ n :=
        fun x y hx hy => ⟨(ih x y hx hy).1 j (by omega), (ih x y hx hy).2⟩
      rw [mergeTo_succ, mergeTo_succ]
      exact assemble_congr (dedupWith_congr hagree fun y hy => hlow y (Or.inl hy))
        (dedupWith_congr hagree fun y hy => hlow y (Or.inr hy))
    · rw [mergeTo_succ, height_le]
      refine ⟨?_, ?_⟩
      · intro y hy
        exact Nat.succ_le_succ (dedupWith_induction hkept (fun z hz => hlow z (Or.inl hz)) y hy)
      · intro y hy
        exact Nat.succ_le_succ (dedupWith_induction hkept (fun z hz => hlow z (Or.inr hz)) y hy)

theorem merge_eq_mergeTo {a b : Component} {n : Nat} (ha : a.height ≤ n) (hb : b.height ≤ n) :
    merge a b = mergeTo n a b :=
  ((mergeTo_stable _ a b (Nat.le_max_left ..) (Nat.le_max_right ..)).1 n
    (Nat.max_le.mpr ⟨ha, hb⟩)).symm

/-- Merging does not add levels. -/
theorem height_merge_le {a b : Component} {n : Nat} (ha : a.height ≤ n) (hb : b.height ≤ n) :
    (merge a b).height ≤ n :=
  merge_eq_mergeTo ha hb ▸ (mergeTo_stable n a b ha hb).2

theorem height_merge_lt {a b : Component} {n : Nat} (ha : a.height < n) (hb : b.height < n) :
    (merge a b).height < n := by
  have := height_merge_le (Nat.le_sub_one_of_lt ha) (Nat.le_sub_one_of_lt hb)
  omega

/-- The recursion that merging follows, without a count of levels. -/
theorem merge_eq (a b : Component) : merge a b = assemble dedup a b := by
  -- one level more than is needed, so that it can be taken off
  have ha : a.height ≤ max a.height b.height + 1 := by omega
  have hb : b.height ≤ max a.height b.height + 1 := by omega
  have hlow := fun y => height_le_of_mem_children (y := y) ha hb
  have hagree : ∀ x y : Component, x.height ≤ max a.height b.height →
      y.height ≤ max a.height b.height →
      mergeTo (max a.height b.height) x y = merge x y ∧
        (merge x y).height ≤ max a.height b.height :=
    fun x y hx hy => ⟨(merge_eq_mergeTo hx hy).symm, height_merge_le hx hy⟩
  rw [merge_eq_mergeTo ha hb, mergeTo_succ]
  exact assemble_congr (dedupWith_congr hagree fun y hy => hlow y (Or.inl hy))
    (dedupWith_congr hagree fun y hy => hlow y (Or.inr hy))

@[simp] theorem merge_base (a b : Component) : (merge a b).base = a.base := by
  rw [merge_eq]
  rfl

@[simp] theorem merge_independent (a b : Component) :
    (merge a b).independent = b.independent := by
  rw [merge_eq]
  rfl

@[simp] theorem merge_modifiers (a b : Component) :
    (merge a b).modifiers = unique (a.modifiers ++ b.modifiers) := by
  rw [merge_eq]
  rfl

@[simp] theorem merge_variants (a b : Component) :
    (merge a b).variants = AttributeSelector.dedup (a.variants ++ b.variants) := by
  rw [merge_eq]
  rfl

@[simp] theorem merge_states (a b : Component) :
    (merge a b).states = AttributeSelector.dedup (a.states ++ b.states) := by
  rw [merge_eq]
  rfl

@[simp] theorem merge_nested (a b : Component) :
    (merge a b).nested = dedup (a.nested ++ b.nested) := by
  rw [merge_eq]
  rfl

@[simp] theorem merge_independents (a b : Component) :
    (merge a b).independents = dedup (a.independents ++ b.independents) := by
  rw [merge_eq]
  rfl

theorem merge_ordered (a b : Component) :
    (merge a b).ordered =
      remap (dedup (a.nested ++ b.nested)) (dedup (a.independents ++ b.independents))
        (uniqueBy base (a.ordered ++ b.ordered)) := by
  rw [merge_eq]
  rfl

/-! ## Merging a list -/

theorem dedup_concat (xs : List Component) (x : Component) :
    dedup (xs ++ [x]) = absorb merge x (dedup xs) :=
  dedupWith_concat xs x

theorem dedup_induction {P : Component → Prop}
    (hm : ∀ a b, a.base = b.base → P a → P b → P (merge a b)) {xs : List Component}
    (h : ∀ x ∈ xs, P x) : ∀ y ∈ dedup xs, P y :=
  dedupWith_induction hm h

theorem dedup_bases (xs : List Component) : (dedup xs).map base = unique (xs.map base) :=
  dedupWith_bases merge_base xs

theorem dedup_bases_nodup (xs : List Component) : ((dedup xs).map base).Nodup := by
  rw [dedup_bases]
  exact unique_nodup _

/-- What nodes are made from can be followed through the merging of a list: if `R` says what a
node is made from and mergers put it together, then every node of the result is made from what
the nodes of its class were made from, in order. -/
theorem dedup_traces {γ : Type} {R : List γ → Component → Prop}
    (hm : ∀ s t a b, a.base = b.base → R s a → R t b → R (s ++ t) (merge a b))
    {ps : List (List γ × Component)} (h : ∀ p ∈ ps, R p.1 p.2) :
    ∀ y ∈ dedup (ps.map Prod.snd),
      R ((ps.filter fun p => p.2.base = y.base).flatMap Prod.fst) y := by
  induction ps using List.reverseRecOn with
  | nil => simp [dedup, dedupWith]
  | append_singleton ps p ih =>
    have hold := ih fun q hq => h q (List.mem_append_left _ hq)
    have hp : R p.1 p.2 := h p (by simp)
    intro y hy
    rw [List.map_append, List.map_singleton, dedup_concat] at hy
    rw [List.filter_append, List.flatMap_append]
    rcases mem_absorb (dedup_bases_nodup _) hy with ⟨hy, hne⟩ | ⟨c, hc, he, rfl⟩ | ⟨rfl, hnew⟩
    · -- a node that the new one leaves alone
      have hlast : p.2.base ≠ y.base := fun h => hne h.symm
      simpa [hlast] using hold y hy
    · -- the merger with the new node, which comes last
      have hlast : p.2.base = (merge c p.2).base := by rw [merge_base, he]
      rw [merge_base] at hlast ⊢
      simpa [hlast] using hm _ _ c p.2 he (hold c hc) hp
    · -- a class that is met for the first time
      have hfirst : (ps.filter fun q => q.2.base = p.2.base) = [] := by
        rw [List.filter_eq_nil_iff]
        intro q hq hbase
        have hmem : q.2.base ∈ (dedup (ps.map Prod.snd)).map base := by
          rw [dedup_bases, mem_unique, List.map_map]
          exact List.mem_map_of_mem hq
        rcases List.mem_map.mp hmem with ⟨c, hc, he⟩
        exact hnew c hc (he.trans (by simpa using hbase))
      simpa [hfirst] using hp

theorem absorb_filter (f : String → Bool) (x : Component) (xs : List Component) :
    (absorb merge x xs).filter (fun y => f y.base) =
      if f x.base then absorb merge x (xs.filter fun y => f y.base)
      else xs.filter fun y => f y.base := by
  induction xs with
  | nil => by_cases hx : f x.base <;> simp [absorb, hx]
  | cons c rest ih =>
    rw [absorb]
    by_cases hc : c.base = x.base
    · by_cases hx : f x.base <;> simp [hc, hx, absorb]
    · by_cases hfc : f c.base
      · by_cases hx : f x.base <;> simp [hc, hfc, ih, hx, absorb]
      · by_cases hx : f x.base <;> simp [hc, hfc, ih, hx]

/-- Leaving out classes before or after merging makes no difference. -/
theorem dedup_filter (f : String → Bool) (xs : List Component) :
    (dedup xs).filter (fun y => f y.base) = dedup (xs.filter fun x => f x.base) := by
  induction xs using List.reverseRecOn with
  | nil => rfl
  | append_singleton xs x ih =>
    rw [dedup_concat, absorb_filter, ih, List.filter_append]
    by_cases hx : f x.base
    · simp [hx, dedup_concat]
    · simp [hx]

/-! ## The order of children -/

theorem lastOf?_eq_none_iff {b : String} {xs : List Component} :
    lastOf? b xs = none ↔ b ∉ xs.map base := by
  simp [lastOf?]

theorem mem_of_lastOf? {b : String} {xs : List Component} {x : Component}
    (h : lastOf? b xs = some x) : x ∈ xs ∧ x.base = b :=
  ⟨List.mem_reverse.mp (List.mem_of_find?_eq_some h), by simpa using List.find?_some h⟩

theorem lastOf?_eq_some {xs : List Component} (hnodup : (xs.map base).Nodup) {x : Component}
    (hx : x ∈ xs) : lastOf? x.base xs = some x := by
  rcases hfind : lastOf? x.base xs with _ | y
  · exact absurd (List.mem_map_of_mem hx) (lastOf?_eq_none_iff.mp hfind)
  · rcases mem_of_lastOf? hfind with ⟨hy, hbase⟩
    rw [List.inj_on_of_nodup_map hnodup hy hx hbase]

/-- The node that stands for a class among Elements and Blocks, if there is one. -/
def standIn? (nested independents : List Component) (b : String) : Option Component :=
  (lastOf? b nested).or (lastOf? b independents)

section StandIn

variable {ns is os : List Component} {z : Component}

theorem standIn?_eq_none_iff {b : String} :
    standIn? ns is b = none ↔ b ∉ ns.map base ∧ b ∉ is.map base := by
  rw [standIn?, Option.or_eq_none_iff, lastOf?_eq_none_iff, lastOf?_eq_none_iff]

theorem mem_of_standIn? {b : String} (h : standIn? ns is b = some z) :
    (z ∈ ns ∨ z ∈ is) ∧ z.base = b := by
  rcases Option.or_eq_some_iff.mp h with h | ⟨_, h⟩
  · exact ⟨Or.inl (mem_of_lastOf? h).1, (mem_of_lastOf? h).2⟩
  · exact ⟨Or.inr (mem_of_lastOf? h).1, (mem_of_lastOf? h).2⟩

/-- A node and the one that stands for it have the same class. -/
theorem base_standIn (x : Component) : ((standIn? ns is x.base).getD x).base = x.base := by
  rcases hfound : standIn? ns is x.base with _ | y
  · rfl
  · exact (mem_of_standIn? hfound).2

theorem remap_eq_map (ns is os : List Component) :
    remap ns is os = os.map fun x => (standIn? ns is x.base).getD x := by
  refine List.map_congr_left fun x _ => ?_
  dsimp only [standIn?]
  cases lastOf? x.base ns <;> rfl

theorem remap_bases : (remap ns is os).map base = os.map base := by
  rw [remap_eq_map, List.map_map]
  exact List.map_congr_left fun x _ => base_standIn x

theorem mem_of_mem_remap (h : z ∈ remap ns is os) : z ∈ ns ∨ z ∈ is ∨ z ∈ os := by
  rw [remap_eq_map] at h
  rcases List.mem_map.mp h with ⟨x, hx, rfl⟩
  rcases hfound : standIn? ns is x.base with _ | y
  · exact Or.inr (Or.inr hx)
  · rcases (mem_of_standIn? hfound).1 with hy | hy
    · exact Or.inl hy
    · exact Or.inr (Or.inl hy)

end StandIn

/-- If a list of distinct classes is split into Elements and Blocks, then every node of it stands for
its class. -/
theorem standIn?_partition {merged : List Component} (hnodup : (merged.map base).Nodup)
    {x : Component} (hx : x ∈ merged) :
    standIn? (merged.filter (!·.independent)) (merged.filter (·.independent)) x.base = some x := by
  have hsub : ∀ p : Component → Bool, ((merged.filter p).map base).Nodup :=
    fun p => hnodup.sublist (List.filter_sublist.map base)
  cases hi : x.independent with
  | false =>
    have hfound : x ∈ merged.filter (!·.independent) := by simp [hx, hi]
    rw [standIn?, lastOf?_eq_some (hsub _) hfound]
    rfl
  | true =>
    have hfound : x ∈ merged.filter (·.independent) := by simp [hx, hi]
    have hnone : x.base ∉ (merged.filter (!·.independent)).map base := by
      intro h
      rcases List.mem_map.mp h with ⟨z, hz, hze⟩
      rw [List.mem_filter] at hz
      rw [List.inj_on_of_nodup_map hnodup hz.1 hx hze, hi] at hz
      simp at hz
    rw [standIn?, lastOf?_eq_none_iff.mpr hnone, lastOf?_eq_some (hsub _) hfound]
    rfl

/-- Remapping any list with the classes of such a list puts it together again. -/
theorem remap_partition {merged found : List Component} (hnodup : (merged.map base).Nodup)
    (hbases : found.map base = merged.map base) :
    remap (merged.filter (!·.independent)) (merged.filter (·.independent)) found = merged := by
  have hlen : found.length = merged.length := by
    simpa using congrArg List.length hbases
  rw [remap_eq_map]
  apply List.ext_getElem
  · rw [List.length_map, hlen]
  · intro n h₁ h₂
    have h₀ : n < found.length := hlen ▸ h₂
    have hb : found[n].base = merged[n].base := by
      have h := congrArg (fun l => l[n]?) hbases
      simpa [h₀, h₂] using h
    -- the class at a place leads to the node at that place
    rw [List.getElem_map, hb, standIn?_partition hnodup (List.getElem_mem h₂)]
    rfl

end BlockMarkup.Component
