import BlockMarkup.Proofs.Component.Merge

/-! # Merging in groups

Nodes of one class are merged one after the other, but it makes no difference in which groups:
`merge` is associative, and lists may be merged in parts and then put together
(`merge_assoc_and_dedup_append`). This is for nodes of any shape. Their lists of children need not
fit together, and the children may be Elements in one list and Blocks in another.

Associativity is passed up level by level. If nodes of one level are merged by an associative `m`,
then lists of them may be merged in groups (`grouping_dedupWith`), and if lists may be merged in
groups, then so may the nodes above (`Grouping.assemble_assoc`).
-/

namespace BlockMarkup.Component

/-! ## Absorbing one node after the other -/

section Absorb

variable {m : Component → Component → Component}

/-- A node of a new class comes last. -/
theorem absorb_of_notMem {x : Component} {xs : List Component} (h : x.base ∉ xs.map base) :
    absorb m x xs = xs ++ [x] := by
  induction xs with
  | nil => rfl
  | cons c rest ih =>
    rw [List.map_cons, List.mem_cons, not_or] at h
    rw [absorb, if_neg (Ne.symm h.1), ih h.2, List.cons_append]

/-- Nodes of distinct classes are left alone. -/
theorem dedupWith_of_nodup {xs : List Component} (h : (xs.map base).Nodup) :
    dedupWith m xs = xs := by
  induction xs using List.reverseRecOn with
  | nil => rfl
  | append_singleton xs x ih =>
    rw [List.map_append, List.map_singleton, List.nodup_append'] at h
    have hnew : x.base ∉ xs.map base := fun hx => h.2.2 hx (List.mem_singleton_self _)
    rw [dedupWith_concat, ih h.1, absorb_of_notMem hnew]

/-- Two nodes of one class may be merged before they are absorbed. -/
theorem absorb_absorb (hbase : ∀ a b, (m a b).base = a.base)
    (hassoc : ∀ a b c, m (m a b) c = m a (m b c)) {x y : Component} (hxy : x.base = y.base)
    (xs : List Component) : absorb m y (absorb m x xs) = absorb m (m x y) xs := by
  induction xs with
  | nil => rw [absorb, absorb, absorb, if_pos hxy]
  | cons c rest ih =>
    rw [absorb, absorb, hbase]
    by_cases hc : c.base = x.base
    · rw [if_pos hc, if_pos hc, absorb, if_pos ((hbase c x).trans (hc.trans hxy)), hassoc]
    · rw [if_neg hc, if_neg hc, absorb, if_neg (fun h => hc (h.trans hxy.symm)), ih]

/-- Nodes of two classes may change places if one of the classes has been met. -/
theorem absorb_comm (hbase : ∀ a b, (m a b).base = a.base) {x y : Component}
    (hxy : x.base ≠ y.base) {xs : List Component} (hy : y.base ∈ xs.map base) :
    absorb m x (absorb m y xs) = absorb m y (absorb m x xs) := by
  induction xs with
  | nil => cases hy
  | cons c rest ih =>
    by_cases hcx : c.base = x.base
    · have hcy : c.base ≠ y.base := fun h => hxy (hcx.symm.trans h)
      rw [absorb, if_neg hcy, absorb, if_pos hcx, absorb, if_pos hcx, absorb, hbase, if_neg hcy]
    · by_cases hcy : c.base = y.base
      · rw [absorb, if_pos hcy, absorb, hbase, if_neg hcx, absorb, if_neg hcx, absorb, if_pos hcy]
      · have hrest : y.base ∈ rest.map base :=
          (List.mem_cons.mp hy).resolve_left (Ne.symm hcy)
        rw [absorb, if_neg hcy, absorb, if_neg hcx, absorb, if_neg hcx, absorb, if_neg hcy,
          ih hrest]

/-- A node that could be absorbed before others of other classes may be absorbed after them. -/
theorem foldl_absorb_comm (hbase : ∀ a b, (m a b).base = a.base) {y : Component}
    {zs : List Component} (hzs : y.base ∉ zs.map base) {xs : List Component}
    (hxs : y.base ∈ xs.map base) :
    zs.foldl (fun merged z => absorb m z merged) (absorb m y xs) =
      absorb m y (zs.foldl (fun merged z => absorb m z merged) xs) := by
  induction zs generalizing xs with
  | nil => rfl
  | cons z rest ih =>
    rw [List.map_cons, List.mem_cons, not_or] at hzs
    have hmet : y.base ∈ (absorb m z xs).map base := by
      rw [absorb_bases hbase]
      split
      · exact hxs
      · exact List.mem_append_left _ hxs
    rw [List.foldl_cons, List.foldl_cons, absorb_comm hbase (Ne.symm hzs.1) hxs, ih hzs.2 hmet]

/-- A node may be absorbed by a list before the list is, or afterwards. -/
theorem foldl_absorb_absorb (hbase : ∀ a b, (m a b).base = a.base)
    (hassoc : ∀ a b c, m (m a b) c = m a (m b c)) (y : Component) {zs : List Component}
    (hnodup : (zs.map base).Nodup) (xs : List Component) :
    (absorb m y zs).foldl (fun merged z => absorb m z merged) xs =
      absorb m y (zs.foldl (fun merged z => absorb m z merged) xs) := by
  induction zs generalizing xs with
  | nil => rfl
  | cons z rest ih =>
    rw [List.map_cons, List.nodup_cons] at hnodup
    rw [absorb]
    by_cases hz : z.base = y.base
    · -- `y` meets `z`, and the classes after `z` are others
      have hmet : y.base ∈ (absorb m z xs).map base := by
        rw [absorb_bases hbase, ← hz]
        split
        · assumption
        · exact List.mem_append_right _ (List.mem_singleton_self _)
      rw [if_pos hz, List.foldl_cons, List.foldl_cons, ← absorb_absorb hbase hassoc hz,
        foldl_absorb_comm hbase (hz ▸ hnodup.1) hmet]
    · rw [if_neg hz, List.foldl_cons, List.foldl_cons, ih hnodup.2]

theorem dedupWith_append (xs ys : List Component) :
    dedupWith m (xs ++ ys) = ys.foldl (fun merged y => absorb m y merged) (dedupWith m xs) :=
  List.foldl_append

/-- A list may be merged before it is absorbed. -/
theorem foldl_absorb_dedupWith (hbase : ∀ a b, (m a b).base = a.base)
    (hassoc : ∀ a b c, m (m a b) c = m a (m b c)) (ys xs : List Component) :
    (dedupWith m ys).foldl (fun merged y => absorb m y merged) xs =
      ys.foldl (fun merged y => absorb m y merged) xs := by
  induction ys using List.reverseRecOn with
  | nil => rfl
  | append_singleton ys y ih =>
    have hnodup : ((dedupWith m ys).map base).Nodup := by
      rw [dedupWith_bases hbase]
      exact unique_nodup _
    rw [dedupWith_concat, foldl_absorb_absorb hbase hassoc y hnodup, ih, List.foldl_concat]

end Absorb

/-! ## Merging lists in groups -/

/-- A way of merging lists that keeps the classes and for which parts may be merged beforehand. -/
structure Grouping (f : List Component → List Component) : Prop where
  mem_bases : ∀ (xs : List Component) (b : String), b ∈ (f xs).map base ↔ b ∈ xs.map base
  append_left : ∀ xs ys : List Component, f (f xs ++ ys) = f (xs ++ ys)
  append_right : ∀ xs ys : List Component, f (xs ++ f ys) = f (xs ++ ys)

theorem grouping_id : Grouping id := ⟨fun _ _ => Iff.rfl, fun _ _ => rfl, fun _ _ => rfl⟩

/-- Lists may be merged in groups if nodes may. -/
theorem grouping_dedupWith {m : Component → Component → Component}
    (hbase : ∀ a b, (m a b).base = a.base) (hassoc : ∀ a b c, m (m a b) c = m a (m b c)) :
    Grouping (dedupWith m) where
  mem_bases xs b := by rw [dedupWith_bases hbase, mem_unique]
  append_left xs ys := by
    have hnodup : ((dedupWith m xs).map base).Nodup := by
      rw [dedupWith_bases hbase]
      exact unique_nodup _
    rw [dedupWith_append, dedupWith_append, dedupWith_of_nodup hnodup]
  append_right xs ys := by
    rw [dedupWith_append, dedupWith_append, foldl_absorb_dedupWith hbase hassoc]

namespace Grouping

variable {f : List Component → List Component}

/-- The two parts may both be merged beforehand. -/
theorem append (hf : Grouping f) (xs ys : List Component) : f (f xs ++ f ys) = f (xs ++ ys) := by
  rw [hf.append_left, hf.append_right]

theorem assoc (hf : Grouping f) (xs ys zs : List Component) :
    f (f (xs ++ ys) ++ zs) = f (xs ++ f (ys ++ zs)) := by
  rw [hf.append_left, hf.append_right, List.append_assoc]

end Grouping

/-! ## The order of children -/

variable {ns is ns' is' : List Component}

/-- A node need not be replaced by others if it is replaced again for all classes of those. -/
theorem standIn_standIn (hns : ∀ b ∈ ns'.map base, b ∈ ns.map base)
    (his : ∀ b ∈ is'.map base, b ∈ is.map base) (c : Component) :
    (standIn? ns is ((standIn? ns' is' c.base).getD c).base).getD
        ((standIn? ns' is' c.base).getD c) =
      (standIn? ns is c.base).getD c := by
  rw [base_standIn]
  rcases hfound : standIn? ns is c.base with _ | x
  · rw [standIn?_eq_none_iff] at hfound
    have hnone : standIn? ns' is' c.base = none :=
      standIn?_eq_none_iff.mpr ⟨fun h => hfound.1 (hns _ h), fun h => hfound.2 (his _ h)⟩
    rw [hnone]
    rfl
  · rfl

/-- Children that are replaced in the end need not be replaced before. -/
theorem remap_uniqueBy_append {xs ys xs' ys' : List Component}
    (hxs : remap ns is xs = remap ns is xs') (hys : remap ns is ys = remap ns is ys') :
    remap ns is (uniqueBy base (xs ++ ys)) = remap ns is (uniqueBy base (xs' ++ ys')) := by
  rw [remap_eq_map, remap_eq_map, ← uniqueBy_map base base_standIn, ← uniqueBy_map base base_standIn,
    List.map_append, List.map_append, ← remap_eq_map, ← remap_eq_map, ← remap_eq_map,
    ← remap_eq_map, hxs, hys]

theorem remap_remap (hns : ∀ b ∈ ns'.map base, b ∈ ns.map base)
    (his : ∀ b ∈ is'.map base, b ∈ is.map base) (xs : List Component) :
    remap ns is (remap ns' is' xs) = remap ns is xs := by
  rw [remap_eq_map, remap_eq_map, remap_eq_map, List.map_map]
  exact List.map_congr_left fun c _ => standIn_standIn hns his c

/-! ## Merging nodes in groups -/

namespace Grouping

variable {f : List Component → List Component}

/-- Of three nodes, the children that stand in the order of the markup. -/
theorem ordered_assoc (hf : Grouping f) (a b c : Component) :
    (assemble f (assemble f a b) c).ordered = (assemble f a (assemble f b c)).ordered := by
  have hleft : ∀ xs ys : List Component, ∀ d ∈ (f xs).map base, d ∈ (f (f xs ++ ys)).map base := by
    intro xs ys d hd
    rw [hf.mem_bases, List.map_append]
    exact List.mem_append_left _ hd
  have hright : ∀ xs ys : List Component, ∀ d ∈ (f ys).map base,
      d ∈ (f (xs ++ f ys)).map base := by
    intro xs ys d hd
    rw [hf.mem_bases, List.map_append]
    exact List.mem_append_right _ hd
  calc (assemble f (assemble f a b) c).ordered
      = remap (f (f (a.nested ++ b.nested) ++ c.nested))
          (f (f (a.independents ++ b.independents) ++ c.independents))
          (uniqueBy base (uniqueBy base (a.ordered ++ b.ordered) ++ c.ordered)) :=
        remap_uniqueBy_append (remap_remap (hleft _ _) (hleft _ _) _) rfl
    _ = remap (f (a.nested ++ f (b.nested ++ c.nested)))
          (f (a.independents ++ f (b.independents ++ c.independents)))
          (uniqueBy base (a.ordered ++ uniqueBy base (b.ordered ++ c.ordered))) := by
        rw [hf.assoc, hf.assoc, uniqueBy_assoc]
    _ = (assemble f a (assemble f b c)).ordered :=
        (remap_uniqueBy_append rfl (remap_remap (hright _ _) (hright _ _) _)).symm

/-- Nodes may be merged in groups if lists of children may. -/
theorem assemble_assoc (hf : Grouping f) (a b c : Component) :
    assemble f (assemble f a b) c = assemble f a (assemble f b c) := by
  have hmodifiers : unique (unique (a.modifiers ++ b.modifiers) ++ c.modifiers) =
      unique (a.modifiers ++ unique (b.modifiers ++ c.modifiers)) := uniqueBy_assoc id _ _ _
  have hselectors : ∀ us vs ws : List AttributeSelector,
      AttributeSelector.dedup (AttributeSelector.dedup (us ++ vs) ++ ws) =
        AttributeSelector.dedup (us ++ AttributeSelector.dedup (vs ++ ws)) :=
    uniqueBy_assoc AttributeSelector.identity
  show Component.mk a.base c.independent (unique (unique (a.modifiers ++ b.modifiers) ++ c.modifiers))
      (AttributeSelector.dedup (AttributeSelector.dedup (a.variants ++ b.variants) ++ c.variants))
      (AttributeSelector.dedup (AttributeSelector.dedup (a.states ++ b.states) ++ c.states))
      (f (f (a.nested ++ b.nested) ++ c.nested))
      (f (f (a.independents ++ b.independents) ++ c.independents))
      (assemble f (assemble f a b) c).ordered a.tag a.isRoot
      (a.viaDeep && b.viaDeep && c.viaDeep) = _
  rw [hmodifiers, hselectors, hselectors, hf.assoc, hf.assoc, hf.ordered_assoc, Bool.and_assoc]
  rfl

end Grouping

/-- Merging is associative however many levels are merged. -/
theorem mergeTo_assoc (n : Nat) (a b c : Component) :
    mergeTo n (mergeTo n a b) c = mergeTo n a (mergeTo n b c) := by
  induction n generalizing a b c with
  | zero => simpa only [mergeTo_zero] using grouping_id.assemble_assoc a b c
  | succ n ih =>
    have hbase : ∀ a b : Component, (mergeTo n a b).base = a.base := by
      intro a b
      rw [mergeTo]
      rfl
    simpa only [mergeTo_succ] using (grouping_dedupWith hbase ih).assemble_assoc a b c

theorem merge_assoc (a b c : Component) : merge (merge a b) c = merge a (merge b c) := by
  -- enough levels for all three nodes, and then for their mergers
  obtain ⟨n, ha, hb, hc⟩ : ∃ n, a.height ≤ n ∧ b.height ≤ n ∧ c.height ≤ n :=
    ⟨max a.height (max b.height c.height), by omega, by omega, by omega⟩
  rw [merge_eq_mergeTo (height_merge_le ha hb) hc, merge_eq_mergeTo ha hb, mergeTo_assoc,
    ← merge_eq_mergeTo hb hc, ← merge_eq_mergeTo ha (height_merge_le hb hc)]

theorem grouping_dedup : Grouping dedup := grouping_dedupWith merge_base merge_assoc

/-- Merging is associative, for nodes of any class and with any children, and a list may be cut
anywhere and its parts be merged before the whole. -/
theorem merge_assoc_and_dedup_append :
    (∀ a b c : Component, merge (merge a b) c = merge a (merge b c)) ∧
      ∀ xs ys : List Component, dedup (xs ++ ys) = dedup (dedup xs ++ dedup ys) :=
  ⟨merge_assoc, fun xs ys => (grouping_dedup.append xs ys).symm⟩

end BlockMarkup.Component
