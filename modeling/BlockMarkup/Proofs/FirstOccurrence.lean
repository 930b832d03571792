import Mathlib.Data.List.Induction
import Mathlib.Data.List.Nodup
import BlockMarkup.Unique

/-! # First occurrences in joined lists

How the removal of repeated items acts on a list that is put together from parts. The parts may be
freed of repetitions beforehand: only the order in which items are first met counts (`firsts_unique`).
-/

namespace BlockMarkup

variable {α β : Type} [BEq β] [LawfulBEq β]

/-- What has been seen counts as a set. -/
theorem uniqueFrom_congr (key : α → β) {seen seen' : List β} (h : ∀ b, b ∈ seen ↔ b ∈ seen')
    (xs : List α) : uniqueFrom key seen xs = uniqueFrom key seen' xs := by
  induction xs generalizing seen seen' with
  | nil => rfl
  | cons a rest ih =>
    have hmem : seen.contains (key a) = seen'.contains (key a) := by
      rw [Bool.eq_iff_iff, List.contains_iff_mem, List.contains_iff_mem]
      exact h _
    have hcons : ∀ b, b ∈ key a :: seen ↔ b ∈ key a :: seen' := by
      intro b
      rw [List.mem_cons, List.mem_cons, h b]
    unfold uniqueFrom
    rw [hmem, ih h, ih hcons]

theorem uniqueFrom_append (key : α → β) (seen : List β) (xs ys : List α) :
    uniqueFrom key seen (xs ++ ys) =
      uniqueFrom key seen xs ++ uniqueFrom key (xs.map key ++ seen) ys := by
  induction xs generalizing seen with
  | nil => rfl
  | cons a rest ih =>
    rw [List.cons_append, uniqueFrom, uniqueFrom]
    split
    · -- the key of `a` was seen before, so that seeing it here changes nothing
      rename_i hseen
      rw [List.contains_iff_mem] at hseen
      rw [ih]
      congr 1
      apply uniqueFrom_congr
      intro b
      simp only [List.map_cons, List.cons_append, List.mem_cons, List.mem_append]
      constructor
      · exact Or.inr
      · rintro (rfl | h)
        · exact Or.inr hseen
        · exact h
    · rw [ih, List.cons_append]
      congr 2
      apply uniqueFrom_congr
      intro b
      simp only [List.map_cons, List.cons_append, List.mem_cons, List.mem_append]
      tauto

/-- Items that have been seen before need not be looked at twice. -/
theorem uniqueFrom_uniqueFrom (key : α → β) {seen seen' : List β} (h : ∀ b ∈ seen', b ∈ seen)
    (xs : List α) : uniqueFrom key seen (uniqueFrom key seen' xs) = uniqueFrom key seen xs := by
  induction xs generalizing seen seen' with
  | nil => rfl
  | cons a rest ih =>
    have hcons : ∀ b ∈ key a :: seen', b ∈ key a :: seen := by
      intro b hb
      rcases List.mem_cons.mp hb with rfl | hb
      · exact List.mem_cons_self
      · exact List.mem_cons_of_mem _ (h b hb)
    by_cases hs' : key a ∈ seen'
    -- what the inner pass drops, the outer one would drop too
    · rw [uniqueFrom, if_pos (by simpa using hs'), uniqueFrom, if_pos (by simpa using h _ hs')]
      exact ih h
    · rw [uniqueFrom, if_neg (by simpa using hs'), uniqueFrom, uniqueFrom]
      by_cases hs : key a ∈ seen
      · rw [if_pos (by simpa using hs), if_pos (by simpa using hs)]
        refine ih ?_
        intro b hb
        rcases List.mem_cons.mp hb with rfl | hb
        · exact hs
        · exact h b hb
      · rw [if_neg (by simpa using hs), if_neg (by simpa using hs), ih hcons]

omit [LawfulBEq β] in
theorem map_uniqueFrom (key : α → β) (seen : List β) (xs : List α) :
    (uniqueFrom key seen xs).map key = uniqueFrom id seen (xs.map key) := by
  induction xs generalizing seen with
  | nil => rfl
  | cons a rest ih =>
    rw [List.map_cons, uniqueFrom, uniqueFrom]
    simp only [id_eq]
    split
    · exact ih seen
    · rw [List.map_cons, ih]

theorem uniqueFrom_of_nodup (key : α → β) {seen : List β} {xs : List α}
    (hnodup : (xs.map key).Nodup) (hseen : ∀ x ∈ xs, key x ∉ seen) :
    uniqueFrom key seen xs = xs := by
  induction xs generalizing seen with
  | nil => rfl
  | cons a rest ih =>
    rw [List.map_cons, List.nodup_cons] at hnodup
    have ha : key a ∉ seen := hseen a List.mem_cons_self
    rw [uniqueFrom, if_neg (by simpa using ha)]
    congr 1
    refine ih hnodup.2 ?_
    intro x hx hmem
    rcases List.mem_cons.mp hmem with e | hmem
    · exact hnodup.1 (e ▸ List.mem_map_of_mem hx)
    · exact hseen x (List.mem_cons_of_mem _ hx) hmem

/-! ## Keys -/

omit [LawfulBEq β] in
/-- The keys of the first items are the first keys. -/
theorem map_uniqueBy (key : α → β) (xs : List α) :
    (uniqueBy key xs).map key = unique (xs.map key) :=
  map_uniqueFrom key [] xs

theorem uniqueBy_of_nodup (key : α → β) {xs : List α} (h : (xs.map key).Nodup) :
    uniqueBy key xs = xs :=
  uniqueFrom_of_nodup key h (by simp)

omit [LawfulBEq β] in
theorem mem_of_mem_uniqueBy (key : α → β) {xs : List α} {x : α} (h : x ∈ uniqueBy key xs) :
    x ∈ xs :=
  mem_of_mem_uniqueFrom key xs [] x h

/-- If keys tell items apart, no item is lost. -/
theorem mem_uniqueBy_of_injOn (key : α → β) {xs : List α}
    (hinj : ∀ x ∈ xs, ∀ y ∈ xs, key x = key y → x = y) {x : α} :
    x ∈ uniqueBy key xs ↔ x ∈ xs := by
  constructor
  · exact mem_of_mem_uniqueBy key
  · intro hx
    rcases List.mem_map.mp (key_mem_uniqueBy key xs x hx) with ⟨y, hy, he⟩
    have hyx : y = x := hinj y (mem_of_mem_uniqueBy key hy) x hx he
    exact hyx ▸ hy

/-! ## Lists of keys -/

theorem unique_nodup (xs : List β) : (unique xs).Nodup := by
  simpa [unique] using uniqueBy_keys_nodup id xs

theorem mem_unique {xs : List β} {x : β} : x ∈ unique xs ↔ x ∈ xs :=
  mem_uniqueBy_of_injOn id (fun _ _ _ _ h => h)

theorem unique_of_nodup {xs : List β} (h : xs.Nodup) : unique xs = xs :=
  uniqueBy_of_nodup id (by simpa using h)

theorem unique_concat (xs : List β) (x : β) :
    unique (xs ++ [x]) = if x ∈ xs then unique xs else unique xs ++ [x] := by
  have h := uniqueFrom_append id [] xs [x]
  simp only [List.map_id, List.append_nil, uniqueFrom, List.contains_iff_mem, id_eq] at h
  show uniqueFrom id [] (xs ++ [x]) = _
  rw [h]
  split <;> simp [unique, uniqueBy]

/-- The parts of a list may be freed of repetitions beforehand. -/
theorem uniqueBy_append_uniqueBy (key : α → β) (xs ys : List α) :
    uniqueBy key (uniqueBy key xs ++ uniqueBy key ys) = uniqueBy key (xs ++ ys) := by
  have hself : uniqueFrom key [] (uniqueBy key xs) = uniqueBy key xs :=
    uniqueBy_of_nodup key (uniqueBy_keys_nodup key xs)
  show uniqueFrom key [] (uniqueBy key xs ++ uniqueBy key ys) = uniqueFrom key [] (xs ++ ys)
  rw [uniqueFrom_append, uniqueFrom_append, hself]
  congr 1
  show uniqueFrom key _ (uniqueFrom key [] ys) = _
  rw [uniqueFrom_uniqueFrom key (by simp)]
  apply uniqueFrom_congr
  intro b
  rw [List.append_nil, List.append_nil, map_uniqueBy, mem_unique]

theorem unique_append_unique (xs ys : List β) :
    unique (unique xs ++ unique ys) = unique (xs ++ ys) :=
  uniqueBy_append_uniqueBy id xs ys

/-- It does not matter which two of three parts are freed of repetitions first. -/
theorem uniqueBy_assoc (key : α → β) (xs ys zs : List α) :
    uniqueBy key (uniqueBy key (xs ++ ys) ++ zs) = uniqueBy key (xs ++ uniqueBy key (ys ++ zs)) := by
  have hself : ∀ us : List α, uniqueBy key (uniqueBy key us) = uniqueBy key us :=
    fun us => uniqueBy_of_nodup key (uniqueBy_keys_nodup key us)
  calc uniqueBy key (uniqueBy key (xs ++ ys) ++ zs)
      = uniqueBy key (uniqueBy key (xs ++ ys) ++ uniqueBy key zs) := by
        rw [← uniqueBy_append_uniqueBy, hself]
    _ = uniqueBy key (xs ++ (ys ++ zs)) := by
        rw [uniqueBy_append_uniqueBy, List.append_assoc]
    _ = uniqueBy key (uniqueBy key xs ++ uniqueBy key (ys ++ zs)) := by
        rw [uniqueBy_append_uniqueBy]
    _ = uniqueBy key (xs ++ uniqueBy key (ys ++ zs)) := by
        rw [← uniqueBy_append_uniqueBy key xs, hself]

omit [LawfulBEq β] in
/-- Changing items does not matter for their keys if it changes no key. -/
theorem uniqueBy_map (key : α → β) {g : α → α} (hg : ∀ x, key (g x) = key x) (xs : List α) :
    uniqueBy key (xs.map g) = (uniqueBy key xs).map g := by
  have hfrom : ∀ seen, uniqueFrom key seen (xs.map g) = (uniqueFrom key seen xs).map g := by
    induction xs with
    | nil => exact fun _ => rfl
    | cons a rest ih =>
      intro seen
      rw [List.map_cons, uniqueFrom, uniqueFrom, hg]
      split
      · exact ih seen
      · rw [List.map_cons, ih]
  exact hfrom []

/-- What is met for a second time leaves no trace. -/
theorem uniqueBy_append_of_mem (key : α → β) {xs ys : List α}
    (h : ∀ y ∈ ys, key y ∈ xs.map key) : uniqueBy key (xs ++ ys) = uniqueBy key xs := by
  have hnone : uniqueFrom key (xs.map key ++ []) ys = [] := by
    rw [List.append_nil]
    induction ys with
    | nil => rfl
    | cons y rest ih =>
      rw [List.forall_mem_cons] at h
      rw [uniqueFrom, if_pos (by simpa using h.1)]
      exact ih h.2
  show uniqueFrom key [] (xs ++ ys) = uniqueFrom key [] xs
  rw [uniqueFrom_append, hnone, List.append_nil]

/-- A list may be freed of repetitions before its items are looked at. -/
theorem unique_filterMap_unique {γ : Type} [BEq γ] [LawfulBEq γ] (f : γ → Option β)
    (xs : List γ) : unique ((unique xs).filterMap f) = unique (xs.filterMap f) := by
  induction xs using List.reverseRecOn with
  | nil => rfl
  | append_singleton xs x ih =>
    rw [unique_concat]
    by_cases hx : x ∈ xs
    · -- whatever comes of the last item has come of an earlier one
      have hlast : ∀ y ∈ [x].filterMap f, id y ∈ (xs.filterMap f).map id := by
        intro y hy
        rcases List.mem_filterMap.mp hy with ⟨z, hz, hf⟩
        rw [List.mem_singleton.mp hz] at hf
        rw [List.map_id]
        exact List.mem_filterMap.mpr ⟨x, hx, hf⟩
      rw [if_pos hx, ih, List.filterMap_append]
      exact (uniqueBy_append_of_mem id hlast).symm
    · rw [if_neg hx, List.filterMap_append, List.filterMap_append, ← unique_append_unique, ih,
        unique_append_unique]

theorem unique_replicate (x : β) (n : Nat) : unique (List.replicate (n + 1) x) = [x] := by
  have hseen : uniqueFrom id [x] (List.replicate n x) = [] := by
    induction n with
    | zero => rfl
    | succ n ih =>
      rw [List.replicate_succ, uniqueFrom, if_pos (by simp)]
      exact ih
  show uniqueFrom id [] (x :: List.replicate n x) = [x]
  rw [uniqueFrom, if_neg (by simp)]
  exact congrArg _ hseen

/-- Blocks of equal items count once each. -/
theorem unique_flatMap {γ : Type} (f : γ → List β) (g : γ → β) (cs : List γ)
    (h : ∀ c ∈ cs, unique (f c) = [g c]) : unique (cs.flatMap f) = unique (cs.map g) := by
  induction cs with
  | nil => rfl
  | cons c rest ih =>
    have hrest : unique (rest.flatMap f) = unique (rest.map g) :=
      ih fun c' hc' => h c' (List.mem_cons_of_mem _ hc')
    have hone : unique [g c] = [g c] := unique_of_nodup (List.nodup_singleton _)
    rw [List.flatMap_cons, List.map_cons, ← unique_append_unique, hrest,
      h c List.mem_cons_self, ← hone, unique_append_unique]
    rfl

/-! ## The order of first occurrences -/

/-- The second list has the items of the first one, each of them once and in the order in which they are
first met. -/
structure Firsts (xs ys : List β) : Prop where
  nodup : ys.Nodup
  mem_iff : ∀ x, x ∈ ys ↔ x ∈ xs
  ordered : ys.Pairwise fun x y => xs.idxOf x < xs.idxOf y

theorem firsts_unique (xs : List β) : Firsts xs (unique xs) where
  nodup := unique_nodup xs
  mem_iff := fun _ => mem_unique
  ordered := by
    induction xs using List.reverseRecOn with
    | nil => exact .nil
    | append_singleton xs x ih =>
      -- what is met before the last item is met at the same place as without it
      have hkept : (unique xs).Pairwise fun a b => (xs ++ [x]).idxOf a < (xs ++ [x]).idxOf b := by
        refine ih.imp_of_mem fun ha hb hlt => ?_
        rwa [List.idxOf_append_of_mem (mem_unique.mp ha), List.idxOf_append_of_mem (mem_unique.mp hb)]
      rw [unique_concat]
      split
      · exact hkept
      · rename_i hx
        refine List.pairwise_append.mpr ⟨hkept, List.pairwise_singleton _ _, fun a ha b hb => ?_⟩
        have ha := mem_unique.mp ha
        rw [List.mem_singleton.mp hb, List.idxOf_append_of_mem ha, List.idxOf_append_of_notMem hx]
        exact Nat.lt_of_lt_of_le (List.idxOf_lt_length_of_mem ha) (Nat.le_add_right _ _)

/-- There is one such list only. -/
theorem Firsts.eq_unique {xs ys : List β} (h : Firsts xs ys) : ys = unique xs := by
  have hunique := firsts_unique xs
  have hmem : ∀ x, x ∈ ys ↔ x ∈ unique xs := fun x => (h.mem_iff x).trans (hunique.mem_iff x).symm
  refine ((List.perm_ext_iff_of_nodup h.nodup hunique.nodup).mpr hmem).eq_of_pairwise ?_ h.ordered
    hunique.ordered
  intro x y _ _ hxy hyx
  exact absurd hyx (Nat.lt_asymm hxy)

/-- What has been seen before may be left out beforehand. -/
theorem uniqueFrom_eq_filter (seen xs : List β) :
    uniqueFrom id seen xs = unique (xs.filter fun x => !seen.contains x) := by
  have hfrom : ∀ seen' : List β, uniqueFrom id (seen' ++ seen) xs =
      uniqueFrom id seen' (xs.filter fun x => !seen.contains x) := by
    induction xs with
    | nil => exact fun _ => rfl
    | cons x rest ih =>
      intro seen'
      by_cases hx : x ∈ seen
      · rw [uniqueFrom, if_pos (by simpa using Or.inr hx), List.filter_cons_of_neg (by simpa using hx), ih]
      · rw [List.filter_cons_of_pos (by simpa using hx), uniqueFrom, uniqueFrom]
        by_cases hx' : x ∈ seen'
        · rw [if_pos (by simpa using Or.inl hx'), if_pos (by simpa using hx'), ih]
        · rw [if_neg (by simp [hx, hx']), if_neg (by simpa using hx'), ← List.cons_append, ih]
  exact hfrom []

/-- Of two lists in turn, the items of the second one count that are not in the first. -/
theorem unique_append (xs ys : List β) :
    unique (xs ++ ys) = unique xs ++ unique (ys.filter fun y => !xs.contains y) := by
  show uniqueFrom id [] (xs ++ ys) = _
  rw [uniqueFrom_append, List.map_id, List.append_nil, uniqueFrom_eq_filter xs]
  rfl

/-! ## Entries under keys -/

/-- An entry is found whatever becomes of those under another key. -/
theorem lookup_filter_ne {a b : β} (h : a ≠ b) (entries : List (β × α)) :
    (entries.filter (·.1 != b)).lookup a = entries.lookup a := by
  induction entries with
  | nil => rfl
  | cons entry rest ih =>
    rcases entry with ⟨k, v⟩
    by_cases hk : k = b
    · subst hk
      have ha : (a == k) = false := by simpa using h
      rw [List.filter_cons_of_neg (by simp), ih, List.lookup_cons, ha]
    · rw [List.filter_cons_of_pos (by simpa using hk), List.lookup_cons, List.lookup_cons, ih]

/-! ## Repeated items -/

section Echoes

variable {γ δ : Type} {xs ys : List γ}

/-- The second list is the first with items repeated that stand before the place. -/
def Echoes (xs ys : List γ) : Prop :=
  ∃ before echo after, xs = before ++ after ∧ ys = before ++ echo ++ after ∧
    ∀ x ∈ echo, x ∈ before

theorem Echoes.flatMap (f : γ → List δ) (h : Echoes xs ys) :
    Echoes (xs.flatMap f) (ys.flatMap f) := by
  rcases h with ⟨before, echo, after, rfl, rfl, hecho⟩
  refine ⟨before.flatMap f, echo.flatMap f, after.flatMap f, by simp, by simp, ?_⟩
  intro y hy
  rcases List.mem_flatMap.mp hy with ⟨x, hx, hy⟩
  exact List.mem_flatMap.mpr ⟨x, hecho x hx, hy⟩

theorem Echoes.filterMap (f : γ → Option δ) (h : Echoes xs ys) :
    Echoes (xs.filterMap f) (ys.filterMap f) := by
  rcases h with ⟨before, echo, after, rfl, rfl, hecho⟩
  refine ⟨before.filterMap f, echo.filterMap f, after.filterMap f, by simp, by simp, ?_⟩
  intro y hy
  rcases List.mem_filterMap.mp hy with ⟨x, hx, hy⟩
  exact List.mem_filterMap.mpr ⟨x, hecho x hx, hy⟩

theorem Echoes.map (f : γ → δ) (h : Echoes xs ys) : Echoes (xs.map f) (ys.map f) := by
  rw [← List.filterMap_eq_map]
  exact h.filterMap _

theorem Echoes.append_left (zs : List γ) (h : Echoes xs ys) : Echoes (zs ++ xs) (zs ++ ys) := by
  rcases h with ⟨before, echo, after, rfl, rfl, hecho⟩
  refine ⟨zs ++ before, echo, after, by simp, by simp, ?_⟩
  intro x hx
  exact List.mem_append_right _ (hecho x hx)

theorem Echoes.append_right (zs : List γ) (h : Echoes xs ys) : Echoes (xs ++ zs) (ys ++ zs) := by
  rcases h with ⟨before, echo, after, rfl, rfl, hecho⟩
  exact ⟨before, echo, after ++ zs, by simp, by simp, hecho⟩

/-- Repetitions are not met for the first time. -/
theorem Echoes.uniqueBy_eq (key : γ → β) (h : Echoes xs ys) :
    uniqueBy key xs = uniqueBy key ys := by
  rcases h with ⟨before, echo, after, rfl, rfl, hecho⟩
  have hmet : uniqueBy key (before ++ echo) = uniqueBy key before :=
    uniqueBy_append_of_mem key fun x hx => List.mem_map_of_mem (hecho x hx)
  rw [← uniqueBy_append_uniqueBy, ← uniqueBy_append_uniqueBy key (before ++ echo), hmet]

theorem Echoes.unique_eq {xs ys : List β} (h : Echoes xs ys) : unique xs = unique ys :=
  h.uniqueBy_eq id

end Echoes

end BlockMarkup
