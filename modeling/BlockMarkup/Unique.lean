/-! # First occurrences

Removal of repeated items from a list. The first of several items with equal keys stays where it
is. Main statements: the keys of the result are pairwise distinct, and no key is lost.
-/

namespace BlockMarkup

variable {α β : Type} [BEq β]

/-- The items whose key is neither in `seen` nor that of an earlier item. -/
def uniqueFrom (key : α → β) : List β → List α → List α
  | _, [] => []
  | seen, x :: rest =>
    if seen.contains (key x) then uniqueFrom key seen rest
    else x :: uniqueFrom key (key x :: seen) rest

/-- The first item of every key. -/
def uniqueBy (key : α → β) (xs : List α) : List α := uniqueFrom key [] xs

/-- The first occurrence of every item. -/
def unique (xs : List β) : List β := uniqueBy id xs

theorem mem_of_mem_uniqueFrom (key : α → β) (xs : List α) (seen : List β) :
    ∀ x ∈ uniqueFrom key seen xs, x ∈ xs := by
  induction xs generalizing seen with
  | nil => simp [uniqueFrom]
  | cons a r ih =>
    intro x hx
    unfold uniqueFrom at hx
    split at hx
    · exact List.mem_cons_of_mem _ (ih _ x hx)
    · rcases List.mem_cons.1 hx with rfl | h
      · exact List.mem_cons_self
      · exact List.mem_cons_of_mem _ (ih _ x h)

theorem key_mem_uniqueFrom [LawfulBEq β] (key : α → β) (xs : List α) (seen : List β) :
    ∀ x ∈ xs, key x ∉ seen → key x ∈ (uniqueFrom key seen xs).map key := by
  induction xs generalizing seen with
  | nil => simp
  | cons a r ih =>
    intro x hx hs
    unfold uniqueFrom
    rcases List.mem_cons.1 hx with rfl | h
    · simp [hs]
    · split
      · exact ih seen x h hs
      · by_cases e : key x = key a
        · simp [e]
        · simp only [List.map_cons, List.mem_cons]
          exact .inr (ih _ x h (by simp [e, hs]))

theorem key_not_mem_seen [LawfulBEq β] (key : α → β) (xs : List α) (seen : List β) :
    ∀ x ∈ uniqueFrom key seen xs, key x ∉ seen := by
  induction xs generalizing seen with
  | nil => simp [uniqueFrom]
  | cons a r ih =>
    intro x hx
    unfold uniqueFrom at hx
    split at hx
    · exact ih seen x hx
    · rename_i h
      rcases List.mem_cons.1 hx with rfl | hx
      · simpa using h
      · have := ih _ x hx
        simp only [List.mem_cons, not_or] at this
        exact this.2

theorem uniqueFrom_keys_nodup [LawfulBEq β] (key : α → β) (xs : List α) (seen : List β) :
    ((uniqueFrom key seen xs).map key).Nodup := by
  induction xs generalizing seen with
  | nil => simp [uniqueFrom]
  | cons a r ih =>
    unfold uniqueFrom
    split
    · exact ih seen
    · rw [List.map_cons, List.nodup_cons]
      refine ⟨?_, ih _⟩
      intro h
      obtain ⟨x, hx, e⟩ := List.mem_map.1 h
      have := key_not_mem_seen key r _ x hx
      simp [e] at this

/-- The keys of the result are pairwise distinct. -/
theorem uniqueBy_keys_nodup [LawfulBEq β] (key : α → β) (xs : List α) :
    ((uniqueBy key xs).map key).Nodup :=
  uniqueFrom_keys_nodup key xs []

/-- No key is lost. -/
theorem key_mem_uniqueBy [LawfulBEq β] (key : α → β) (xs : List α) (x : α) (h : x ∈ xs) :
    key x ∈ (uniqueBy key xs).map key :=
  key_mem_uniqueFrom key xs [] x h (by simp)

end BlockMarkup
