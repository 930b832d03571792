import Mathlib.Tactic.Common

/-! # Results that are not errors

What a computation that may fail has done if it has not failed, and what such a computation collects
from a list.
-/

namespace BlockMarkup

variable {ε α β : Type}

theorem bind_eq_ok {e : Except ε α} {f : α → Except ε β} {b : β} :
    (e >>= f) = .ok b ↔ ∃ a, e = .ok a ∧ f a = .ok b := by
  cases e with
  | error e =>
    constructor
    · intro h
      cases h
    · rintro ⟨_, h, _⟩
      cases h
  | ok a =>
    constructor
    · intro h
      exact ⟨a, rfl, h⟩
    · rintro ⟨_, h, hf⟩
      cases h
      exact hf

theorem bind_eq_error {e : Except ε α} {f : α → Except ε β} {err : ε} :
    (e >>= f) = .error err ↔ e = .error err ∨ ∃ a, e = .ok a ∧ f a = .error err := by
  cases e with
  | error e =>
    constructor
    · intro h
      cases h
      exact .inl rfl
    · rintro (h | ⟨_, h, _⟩)
      · cases h
        rfl
      · cases h
  | ok a =>
    constructor
    · intro h
      exact .inr ⟨a, rfl, h⟩
    · rintro (h | ⟨_, h, hf⟩)
      · cases h
      · cases h
        exact hf

/-- What a test finds in a result. -/
theorem exists_of_any_toOption {e : Except ε α} {test : α → Bool} (h : e.toOption.any test = true) :
    ∃ a, e = .ok a ∧ test a = true := by
  cases e with
  | error e => cases h
  | ok a => exact ⟨a, rfl, h⟩

theorem map_eq_ok {e : Except ε α} {f : α → β} {b : β} :
    e.map f = .ok b ↔ ∃ a, e = .ok a ∧ f a = b := by
  cases e with
  | error e => simp [Except.map]
  | ok a => simp [Except.map]

theorem map_eq_error {e : Except ε α} {f : α → β} {err : ε} :
    e.map f = .error err ↔ e = .error err := by
  cases e <;> simp [Except.map]

theorem exists_map_eq_ok {e : Except ε α} {f : α → β} :
    (∃ b, e.map f = .ok b) ↔ ∃ a, e = .ok a := by
  cases e <;> simp [Except.map]

theorem mapM_eq_ok {f : α → Except ε β} {g : α → β} {xs : List α} (h : ∀ x ∈ xs, f x = .ok (g x)) :
    xs.mapM f = .ok (xs.map g) := by
  induction xs with
  | nil => rfl
  | cons x rest ih =>
    obtain ⟨hx, hrest⟩ := List.forall_mem_cons.mp h
    rw [List.mapM_cons, hx, ih hrest]
    rfl

theorem exists_of_mapM_eq_ok {f : α → Except ε β} {xs : List α} {ys : List β}
    (h : xs.mapM f = .ok ys) : ∀ x ∈ xs, ∃ y ∈ ys, f x = .ok y := by
  induction xs generalizing ys with
  | nil => simp
  | cons x rest ih =>
    rw [List.mapM_cons, bind_eq_ok] at h
    rcases h with ⟨y, hy, h⟩
    rcases bind_eq_ok.mp h with ⟨rest', hrest, h⟩
    cases h
    rw [List.forall_mem_cons]
    refine ⟨⟨y, List.mem_cons_self, hy⟩, fun z hz => ?_⟩
    rcases ih hrest z hz with ⟨y', hy', hz'⟩
    exact ⟨y', List.mem_cons_of_mem _ hy', hz'⟩

/-! ## Collecting -/

/-- What a computation that may fail finds at the items of a list, put together. -/
def collect (f : α → Except ε (List β)) (xs : List α) : Except ε (List β) :=
  (xs.mapM f).map List.flatten

variable {f : α → Except ε (List β)} {xs : List α} {ys : List β}

theorem collect_cons (x : α) (xs : List α) :
    collect f (x :: xs) = f x >>= fun here => (collect f xs).map (here ++ ·) := by
  rw [collect, collect, List.mapM_cons]
  cases f x with
  | error e => rfl
  | ok here => cases xs.mapM f <;> rfl

theorem collect_append (xs xs' : List α) :
    collect f (xs ++ xs') = collect f xs >>= fun first => (collect f xs').map (first ++ ·) := by
  rw [collect, collect, collect, List.mapM_append]
  cases xs.mapM f with
  | error e => rfl
  | ok first =>
    cases xs'.mapM f with
    | error e => rfl
    | ok others => exact congrArg Except.ok List.flatten_append

/-- Computations that agree at the items of two lists collect the same. -/
theorem collect_congr {γ : Type} {g : γ → Except ε (List β)} {zs : List γ}
    (h : xs.map f = zs.map g) : collect f xs = collect g zs := by
  have hmap : ∀ {δ : Type} (k : δ → Except ε (List β)) (ds : List δ),
      ds.mapM k = (ds.map k).mapM id := by
    intro δ k ds
    rw [List.mapM_map]
    rfl
  rw [collect, collect, hmap f, hmap g, h]

/-- Collecting succeeds just if it succeeds at every item. -/
theorem exists_collect_eq_ok :
    (∃ ys, collect f xs = .ok ys) ↔ ∀ x ∈ xs, ∃ found, f x = .ok found := by
  induction xs with
  | nil => simpa using ⟨[], rfl⟩
  | cons x rest ih =>
    rw [List.forall_mem_cons, ← ih]
    simp only [collect_cons, bind_eq_ok, map_eq_ok]
    constructor
    · rintro ⟨_, here, hhere, others, hothers, _⟩
      exact ⟨⟨here, hhere⟩, others, hothers⟩
    · rintro ⟨⟨here, hhere⟩, others, hothers⟩
      exact ⟨_, here, hhere, others, hothers, rfl⟩

/-- What is collected is what is found at the items. -/
theorem mem_of_collect_eq_ok (h : collect f xs = .ok ys) {y : β} :
    y ∈ ys ↔ ∃ x ∈ xs, ∃ found, f x = .ok found ∧ y ∈ found := by
  induction xs generalizing ys with
  | nil =>
    obtain rfl : [] = ys := Except.ok.inj h
    simp
  | cons x rest ih =>
    rw [collect_cons, bind_eq_ok] at h
    rcases h with ⟨here, hhere, h⟩
    rcases map_eq_ok.mp h with ⟨others, hothers, rfl⟩
    have hfound : ∀ found, f x = .ok found ↔ here = found := by
      intro found
      rw [hhere, Except.ok.injEq]
    simp [ih hothers, hfound]

end BlockMarkup
