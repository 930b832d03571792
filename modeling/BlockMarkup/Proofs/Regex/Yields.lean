import Mathlib.Tactic.Common
import BlockMarkup.Regex.Match

/-! # What a pattern hands on

A pattern is run with a continuation, so what is said of a run is said of the cursors that are handed to
the continuation: `Yields step R` says that they are related by `R` to the cursor that the step was given.
There is a lemma about it for every kind of pattern, and a property of all patterns is an induction over
the pattern with these lemmas as its cases.
-/

namespace BlockMarkup.Regex

/-- A success of the step comes from something it has handed on, which is related to what it was
given. -/
def Yields (step : Step) (R : Cursor → Cursor → Prop) : Prop :=
  ∀ s k t, step s k = some t → ∃ u, R s u ∧ k u = some t

theorem Yields.weaken {step : Step} {R R' : Cursor → Cursor → Prop} (h : Yields step R)
    (himp : ∀ s u, R s u → R' s u) : Yields step R' := by
  intro s k t ht
  obtain ⟨u, hu, hk⟩ := h s k t ht
  exact ⟨u, himp s u hu, hk⟩

/-- Where nothing is left to do, the success is what was handed on. -/
theorem Yields.rel {step : Step} {R : Cursor → Cursor → Prop} {s t : Cursor} (h : Yields step R)
    (ht : step s some = some t) : R s t := by
  obtain ⟨u, hu, hsame⟩ := h s some t ht
  cases hsame
  exact hu

/-- One step and then another. -/
theorem Yields.andThen {first second : Step} {R S : Cursor → Cursor → Prop} (h : Yields first R)
    (h' : Yields second S) :
    Yields (fun s k => first s fun u => second u k) fun s u => ∃ v, R s v ∧ S v u := by
  intro s k t ht
  obtain ⟨v, hv, hrest⟩ := h _ _ _ ht
  obtain ⟨u, hu, hk⟩ := h' _ _ _ hrest
  exact ⟨u, ⟨v, hv, hu⟩, hk⟩

/-! ## Runs -/

section Runs

variable {set : CharSet} {least : Nat} {most : Option Nat} {greed : Greed} {before after : List Char}
variable {pos : Nat} {groups : List (Nat × Capture)} {s u : Cursor}

/-- One character more is below the bound if the bound is not none and the others are below the one
before it. -/
theorem all_map_pred_iff (m : Nat) :
    most != some 0 ∧ (most.map (· - 1)).all (m ≤ ·) = true ↔ most.all (m + 1 ≤ ·) = true := by
  cases most with
  | none => simp
  | some bound =>
    simp only [bne_iff_ne, ne_eq, Option.some.injEq, Option.map_some, Option.all_some,
      decide_eq_true_eq]
    omega

/-- A run may stop behind any part of the text that is in its set and not too long. -/
theorem mem_stops_iff : u ∈ stops set most before after pos groups ↔
    ∃ cs rest, after = cs ++ rest ∧ (∀ c ∈ cs, set.contains c = true) ∧
      most.all (cs.length ≤ ·) = true ∧
        u = ⟨cs.reverse ++ before, rest, pos + cs.length, groups⟩ := by
  have hnone : most.all (([] : List Char).length ≤ ·) = true := by cases most <;> simp
  induction after generalizing most before pos with
  | nil =>
    rw [stops, List.mem_singleton]
    constructor
    · rintro rfl
      exact ⟨[], [], rfl, by simp, hnone, rfl⟩
    · rintro ⟨cs, rest, hafter, -, -, rfl⟩
      obtain ⟨rfl, rfl⟩ := List.append_eq_nil_iff.mp hafter.symm
      rfl
  | cons c after ih =>
    have hpos : ∀ m : Nat, pos + 1 + m = pos + (m + 1) := by
      intro m
      omega
    rw [stops, List.mem_cons]
    constructor
    · rintro (rfl | h)
      · exact ⟨[], c :: after, rfl, by simp, hnone, rfl⟩
      · split at h
        · rename_i hgoes
          rw [Bool.and_eq_true] at hgoes
          obtain ⟨cs, rest, rfl, hcs, hall, rfl⟩ := (ih (by cases most <;> simp)).mp h
          refine ⟨c :: cs, rest, rfl, List.forall_mem_cons.mpr ⟨hgoes.2, hcs⟩,
            (all_map_pred_iff _).mp ⟨hgoes.1, hall⟩, ?_⟩
          rw [List.reverse_cons, List.append_assoc, hpos, List.length_cons]
          rfl
        · cases h
    · rintro ⟨cs, rest, hafter, hcs, hall, rfl⟩
      cases cs with
      | nil => exact Or.inl (by rw [hafter]; rfl)
      | cons d cs =>
        obtain ⟨rfl, rfl⟩ := List.cons.inj hafter
        obtain ⟨hbound, hall⟩ := (all_map_pred_iff _).mpr hall
        rw [List.forall_mem_cons] at hcs
        rw [if_pos (by rw [Bool.and_eq_true]; exact ⟨hbound, hcs.1⟩)]
        refine Or.inr ((ih (by cases most <;> simp)).mpr ⟨cs, rest, rfl, hcs.2, hall, ?_⟩)
        rw [List.reverse_cons, List.append_assoc, hpos, List.length_cons]
        rfl

/-- The stops are one character apart. -/
theorem pos_of_getElem?_stops {i : Nat}
    (h : (stops set most before after pos groups)[i]? = some u) : u.pos = pos + i := by
  induction after generalizing most before pos i with
  | nil =>
    cases i with
    | zero =>
      cases h
      rfl
    | succ i => cases h
  | cons c after ih =>
    rw [stops] at h
    cases i with
    | zero =>
      cases h
      rfl
    | succ i =>
      rw [List.getElem?_cons_succ] at h
      split at h
      · rw [ih h]
        omega
      · cases h

/-- So those that are too short are left out by their number. -/
theorem mem_drop_stops_iff {n : Nat} : u ∈ (stops set most before after pos groups).drop n ↔
    ∃ cs rest, after = cs ++ rest ∧ (∀ c ∈ cs, set.contains c = true) ∧ n ≤ cs.length ∧
      most.all (cs.length ≤ ·) = true ∧
        u = ⟨cs.reverse ++ before, rest, pos + cs.length, groups⟩ := by
  have hdrop : u ∈ (stops set most before after pos groups).drop n ↔
      u ∈ stops set most before after pos groups ∧ pos + n ≤ u.pos := by
    rw [List.mem_iff_getElem?, List.mem_iff_getElem?]
    constructor
    · rintro ⟨i, hi⟩
      rw [List.getElem?_drop] at hi
      have hu := pos_of_getElem?_stops hi
      exact ⟨⟨n + i, hi⟩, by omega⟩
    · rintro ⟨⟨i, hi⟩, hle⟩
      have hu := pos_of_getElem?_stops hi
      refine ⟨i - n, ?_⟩
      rwa [List.getElem?_drop, Nat.add_sub_cancel' (by omega)]
  rw [hdrop, mem_stops_iff]
  constructor
  · rintro ⟨⟨cs, rest, hafter, hcs, hall, rfl⟩, hle⟩
    exact ⟨cs, rest, hafter, hcs, Nat.le_of_add_le_add_left hle, hall, rfl⟩
  · rintro ⟨cs, rest, hafter, hcs, hle, hall, rfl⟩
    exact ⟨⟨cs, rest, hafter, hcs, hall, rfl⟩, Nat.add_le_add_left hle pos⟩

/-- The stops of a run, whatever their order, are long enough. -/
theorem mem_drop_of_mem_spanStops (h : u ∈ spanStops set least most greed s) :
    u ∈ (stops set most s.before s.after s.pos s.groups).drop least := by
  cases greed with
  | greedy => exact List.mem_reverse.mp h
  | lazy => exact h
  | possessive => exact List.mem_of_getLast? (Option.mem_toList.mp h)

end Runs

/-! ## Repetitions -/

section Repetition

variable {step : Step} {least : Nat} {most : Option Nat}

/-- What a repetition hands on is related to what it is given, if that is so of every round. -/
theorem Yields.iterateGreedy {R : Cursor → Cursor → Prop} (hrefl : ∀ s, R s s)
    (htrans : ∀ {s u v}, R s u → R u v → R s v) (h : Yields step R) (fuel count : Nat)
    (last : Option Nat) : Yields (iterateGreedy step least most fuel count last) R := by
  induction fuel generalizing count last with
  | zero =>
    intro s k t ht
    exact ⟨s, hrefl s, ht⟩
  | succ fuel ih =>
    -- one round, then the rounds after it
    have hround : ∀ count last, Yields
        (fun s k => step s fun u => Regex.iterateGreedy step least most fuel count last u k) R :=
      fun count last => (h.andThen (ih count last)).weaken fun s u ⟨v, hv, hu⟩ => htrans hv hu
    intro s k t ht
    rw [Regex.iterateGreedy] at ht
    split at ht
    · exact hround _ _ _ _ _ ht
    · split at ht
      · split at ht
        · rename_i hsome
          cases ht
          exact hround _ _ _ _ _ hsome
        · exact ⟨s, hrefl s, ht⟩
      · exact ⟨s, hrefl s, ht⟩

theorem Yields.iterateLazy {R : Cursor → Cursor → Prop} (hrefl : ∀ s, R s s)
    (htrans : ∀ {s u v}, R s u → R u v → R s v) (h : Yields step R) (fuel count : Nat)
    (last : Option Nat) : Yields (iterateLazy step least most fuel count last) R := by
  induction fuel generalizing count last with
  | zero =>
    intro s k t ht
    exact ⟨s, hrefl s, ht⟩
  | succ fuel ih =>
    have hround : ∀ count last, Yields
        (fun s k => step s fun u => Regex.iterateLazy step least most fuel count last u k) R :=
      fun count last => (h.andThen (ih count last)).weaken fun s u ⟨v, hv, hu⟩ => htrans hv hu
    intro s k t ht
    rw [Regex.iterateLazy] at ht
    split at ht
    · exact hround _ _ _ _ _ ht
    · split at ht
      · rename_i hsome
        cases ht
        exact ⟨s, hrefl s, hsome⟩
      · split at ht
        · exact hround _ _ _ _ _ ht
        · cases ht

theorem rel_iteratePossessive {R : Cursor → Cursor → Prop} (hrefl : ∀ s, R s s)
    (htrans : ∀ {s u v}, R s u → R u v → R s v) (h : Yields step R) {fuel count : Nat} {s t : Cursor}
    (ht : iteratePossessive step least most fuel count s = some t) : R s t := by
  induction fuel generalizing count s with
  | zero =>
    cases ht
    exact hrefl _
  | succ fuel ih =>
    rw [iteratePossessive] at ht
    split at ht
    · split at ht
      · split at ht
        · cases ht
        · cases ht
          exact hrefl _
      · rename_i u hround
        have hu := h.rel hround
        split at ht
        · cases ht
          exact hu
        · exact htrans hu (ih ht)
    · cases ht
      exact hrefl _

/-- Loops of all kinds go round by round. -/
theorem Yields.loop {r : Regex} {greed : Greed} {R : Cursor → Cursor → Prop} (hrefl : ∀ s, R s s)
    (htrans : ∀ {s u v}, R s u → R u v → R s v) (h : Yields (run r) R) :
    Yields (run (.loop r least most greed)) R := by
  intro s k t ht
  cases greed with
  | greedy => exact Yields.iterateGreedy hrefl htrans h _ _ _ s k t ht
  | lazy => exact Yields.iterateLazy hrefl htrans h _ _ _ s k t ht
  | possessive =>
    rcases Option.bind_eq_some_iff.mp ht with ⟨u, hu, ht⟩
    exact ⟨u, rel_iteratePossessive hrefl htrans h hu, ht⟩

end Repetition

/-! ## Equations of a run -/

section Run

variable {a b r : Regex} {set : CharSet} {s : Cursor} {k : Cursor → Option Cursor}

theorem run_one_nil (h : s.after = []) : run (.one set) s k = none := by
  cases s
  subst h
  rfl

theorem run_one_cons {c : Char} {rest : List Char} (h : s.after = c :: rest) :
    run (.one set) s k =
      if set.contains c then k { s with before := c :: s.before, after := rest, pos := s.pos + 1 }
      else none := by
  cases s
  subst h
  rfl

theorem run_span (least : Nat) (most : Option Nat) (greed : Greed) :
    run (.span set least most greed) s k = (spanStops set least most greed s).findSome? k := rfl

theorem run_anchor (x : Anchor) :
    run (.anchor x) s k = if anchorHolds x s then k s else none := rfl

theorem run_seq : run (.seq a b) s k = run a s fun t => run b t k := rfl

theorem run_alt : run (.alt a b) s k = (run a s k).or (run b s k) := by
  rw [run]
  cases run a s k with
  | none => rfl
  | some t => rfl

theorem run_group (i : Nat) : run (.group i r) s k = run r s fun t => k (s.record t i) := rfl

theorem run_backref (i : Nat) (rule : CaseRule) :
    run (.backref i rule) s k = (s.group? i).bind fun t => (eat rule t s).bind k := rfl

theorem run_atomic : run (.atomic r) s k = (run r s some).bind k := rfl

theorem run_ifGroup (i : Nat) :
    run (.ifGroup i a b) s k = if (s.groups.lookup i).isSome then run a s k else run b s k := rfl

/-- What a look sees: the end of the first way of its pattern. -/
def seen (behind : Option Nat) (r : Regex) (s : Cursor) : Option Cursor :=
  (Cursor.back? (behind.getD 0) s).bind fun u => run r u some

/-- A look that succeeds hands on the groups of what it saw. -/
theorem run_look (behind : Option Nat) : run (.look behind false r) s k =
    (seen behind r s).bind fun u => k { s with groups := u.groups } := by
  cases hseen : seen behind r s with
  | none =>
    unfold seen at hseen
    simp [run, hseen]
  | some u =>
    unfold seen at hseen
    simp [run, hseen]

theorem run_look_negated (behind : Option Nat) :
    run (.look behind true r) s k = if seen behind r s = none then k s else none := by
  cases hseen : seen behind r s with
  | none =>
    unfold seen at hseen
    simp [run, hseen]
  | some u =>
    unfold seen at hseen
    simp [run, hseen]

end Run

/-! ## What each kind of pattern hands on -/

section HandedOn

variable {a b r : Regex} {R S : Cursor → Cursor → Prop}

theorem yields_empty : Yields (run .empty) fun s u => u = s := by
  intro s k t ht
  exact ⟨s, rfl, ht⟩

theorem yields_one_cursor (set : CharSet) : Yields (run (.one set)) fun s u =>
    ∃ c rest, set.contains c = true ∧ s.after = c :: rest ∧
      u = ⟨c :: s.before, rest, s.pos + 1, s.groups⟩ := by
  intro s k t ht
  rcases hafter : s.after with _ | ⟨c, rest⟩
  · rw [run_one_nil hafter] at ht
    cases ht
  · rw [run_one_cons hafter] at ht
    split at ht
    · rename_i hc
      exact ⟨_, ⟨c, rest, hc, hafter, rfl⟩, ht⟩
    · cases ht

theorem yields_one (set : CharSet) : Yields (run (.one set)) fun s u =>
    ∃ c, set.contains c = true ∧ s.after = c :: u.after ∧ u.pos = s.pos + 1 := by
  refine (yields_one_cursor set).weaken ?_
  rintro s u ⟨c, rest, hc, hafter, rfl⟩
  exact ⟨c, hc, hafter, rfl⟩

theorem yields_single (c : Char) : Yields (run (.one (.single c))) fun s u =>
    s.after = c :: u.after := by
  refine (yields_one _).weaken ?_
  rintro s u ⟨d, hd, hafter, -⟩
  rw [CharSet.contains_single, beq_iff_eq] at hd
  rw [hafter, hd]

theorem yields_span_cursor (set : CharSet) (least : Nat) (most : Option Nat) (greed : Greed) :
    Yields (run (.span set least most greed)) fun s u =>
      ∃ cs rest, s.after = cs ++ rest ∧ (∀ c ∈ cs, set.contains c = true) ∧ least ≤ cs.length ∧
        u = ⟨cs.reverse ++ s.before, rest, s.pos + cs.length, s.groups⟩ := by
  intro s k t ht
  rw [run_span] at ht
  obtain ⟨u, hu, hk⟩ := List.exists_of_findSome?_eq_some ht
  obtain ⟨cs, rest, hafter, hset, hle, -, hcursor⟩ :=
    mem_drop_stops_iff.mp (mem_drop_of_mem_spanStops hu)
  exact ⟨u, ⟨cs, rest, hafter, hset, hle, hcursor⟩, hk⟩

theorem yields_span (set : CharSet) (least : Nat) (most : Option Nat) (greed : Greed) :
    Yields (run (.span set least most greed)) fun s u =>
      ∃ cs, s.after = cs ++ u.after ∧ (∀ c ∈ cs, set.contains c = true) ∧
        u.pos = s.pos + cs.length := by
  refine (yields_span_cursor set least most greed).weaken ?_
  rintro s u ⟨cs, rest, hafter, hset, -, rfl⟩
  exact ⟨cs, hafter, hset, rfl⟩

/-- A run consumes as many characters as it needs. -/
theorem yields_span_least (set : CharSet) (least : Nat) (most : Option Nat) (greed : Greed) :
    Yields (run (.span set least most greed)) fun s u =>
      ∃ cs, s.after = cs ++ u.after ∧ least ≤ cs.length ∧ ∀ c ∈ cs, set.contains c = true := by
  refine (yields_span_cursor set least most greed).weaken ?_
  rintro s u ⟨cs, rest, hafter, hset, hle, rfl⟩
  exact ⟨cs, hafter, hle, hset⟩

theorem yields_anchor (a : Anchor) : Yields (run (.anchor a)) fun s u =>
    u = s ∧ anchorHolds a s = true := by
  intro s k t ht
  rw [run_anchor] at ht
  split at ht
  · rename_i hholds
    exact ⟨s, ⟨rfl, hholds⟩, ht⟩
  · cases ht

theorem Yields.seq (ha : Yields (run a) R) (hb : Yields (run b) S) :
    Yields (run (.seq a b)) fun s u => ∃ v, R s v ∧ S v u :=
  ha.andThen hb

theorem Yields.alt (ha : Yields (run a) R) (hb : Yields (run b) R) :
    Yields (run (.alt a b)) R := by
  intro s k t ht
  rw [run_alt, Option.or_eq_some_iff] at ht
  rcases ht with hleft | ⟨-, hright⟩
  · exact ha _ _ _ hleft
  · exact hb _ _ _ hright

theorem Yields.group (h : Yields (run r) R) (i : Nat) :
    Yields (run (.group i r)) fun s u => ∃ v, R s v ∧ u = s.record v i := by
  intro s k t ht
  rw [run_group] at ht
  obtain ⟨v, hv, hk⟩ := h _ _ _ ht
  exact ⟨s.record v i, ⟨v, hv, rfl⟩, hk⟩

theorem yields_backref (i : Nat) (rule : CaseRule) :
    Yields (run (.backref i rule)) fun s u => ∃ text, eat rule text s = some u := by
  intro s k t ht
  rw [run_backref] at ht
  obtain ⟨text, -, htext⟩ := Option.bind_eq_some_iff.mp ht
  obtain ⟨u, hu, hk⟩ := Option.bind_eq_some_iff.mp htext
  exact ⟨u, ⟨text, hu⟩, hk⟩

/-- A look stays where it is. It has other groups at most, those of what it has seen. -/
theorem yields_look_cursor (behind : Option Nat) (negated : Bool) (r : Regex) :
    Yields (run (.look behind negated r)) fun s u =>
      u = s ∨ ∃ v, seen behind r s = some v ∧ u = { s with groups := v.groups } := by
  intro s k t ht
  cases negated with
  | true =>
    rw [run_look_negated] at ht
    split at ht
    · exact ⟨s, Or.inl rfl, ht⟩
    · cases ht
  | false =>
    rw [run_look] at ht
    obtain ⟨v, hseen, hk⟩ := Option.bind_eq_some_iff.mp ht
    exact ⟨_, Or.inr ⟨v, hseen, rfl⟩, hk⟩

theorem yields_look (behind : Option Nat) (negated : Bool) (r : Regex) :
    Yields (run (.look behind negated r)) fun s u => u.after = s.after ∧ u.pos = s.pos := by
  refine (yields_look_cursor behind negated r).weaken ?_
  rintro s u (rfl | ⟨v, -, rfl⟩)
  · exact ⟨rfl, rfl⟩
  · exact ⟨rfl, rfl⟩

/-- What a look sees is the end of a run that begins as far back as the look goes. -/
theorem Yields.seen {behind : Option Nat} {s u : Cursor} (h : Yields (run r) R)
    (hseen : seen behind r s = some u) : ∃ v, Cursor.back? (behind.getD 0) s = some v ∧ R v u := by
  obtain ⟨v, hback, hrun⟩ := Option.bind_eq_some_iff.mp hseen
  exact ⟨v, hback, h.rel hrun⟩

theorem Yields.atomic (h : Yields (run r) R) : Yields (run (.atomic r)) R := by
  intro s k t ht
  rw [run_atomic] at ht
  obtain ⟨u, hrun, hk⟩ := Option.bind_eq_some_iff.mp ht
  exact ⟨u, h.rel hrun, hk⟩

theorem Yields.ifGroup (ha : Yields (run a) R) (hb : Yields (run b) R) (i : Nat) :
    Yields (run (.ifGroup i a b)) R := by
  intro s k t ht
  rw [run_ifGroup] at ht
  split at ht
  · exact ha _ _ _ ht
  · exact hb _ _ _ ht

end HandedOn

end BlockMarkup.Regex
