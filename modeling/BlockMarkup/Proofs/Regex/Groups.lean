import BlockMarkup.Proofs.FirstOccurrence
import BlockMarkup.Proofs.Regex.Yields

/-! # Groups that a pattern leaves alone

A pattern records the groups that stand in it and no others (`keeps_run`). The text of a group at the
start of a pattern is then what the body of the group has consumed (`group_of_matchAt`).
-/

namespace BlockMarkup.Regex

/-- The pattern has no group of the given number. -/
def lacks (i : Nat) : Regex → Bool
  | .empty | .one _ | .span .. | .anchor _ | .backref _ _ => true
  | .seq a b | .alt a b | .ifGroup _ a b => lacks i a && lacks i b
  | .loop r _ _ _ | .look _ _ r | .atomic r => lacks i r
  | .group j r => j != i && lacks i r

/-- What a step hands on has group `i` as the step was given it. -/
def Keeps (i : Nat) (step : Step) : Prop :=
  Yields step fun s u => u.groups.lookup i = s.groups.lookup i

variable {i : Nat}

/-! ## Cursors -/

theorem record_lookup_self (s u : Cursor) (j : Nat) :
    (s.record u j).groups.lookup j = some ⟨s.after, u.pos - s.pos⟩ := by
  simp [Cursor.record]

theorem record_lookup_ne {j : Nat} (h : i ≠ j) (s u : Cursor) :
    (s.record u j).groups.lookup i = u.groups.lookup i := by
  have hij : (i == j) = false := by simpa using h
  simp only [Cursor.record, List.lookup_cons, hij]
  exact lookup_filter_ne h u.groups

theorem back?_groups {n : Nat} {s t : Cursor} (h : Cursor.back? n s = some t) :
    t.groups = s.groups := by
  induction n generalizing s with
  | zero =>
    cases h
    rfl
  | succ n ih =>
    rw [Cursor.back?] at h
    split at h
    · cases h
    · rw [ih h]

theorem eat_groups {rule : CaseRule} {text : List Char} {s t : Cursor}
    (h : eat rule text s = some t) : t.groups = s.groups := by
  induction text generalizing s with
  | nil =>
    cases h
    rfl
  | cons c rest ih =>
    rw [eat] at h
    split at h
    · split at h
      · rcases Option.bind_eq_some_iff.mp h with ⟨u, hu, h⟩
        rw [ih h]
        unfold Cursor.next? at hu
        split at hu
        · cases hu
        · cases hu
          rfl
      · cases h
    · cases h

/-! ## Patterns -/

/-- A pattern leaves alone the groups that it does not have. -/
theorem keeps_run (r : Regex) (h : r.lacks i = true) : Keeps i (run r) := by
  induction r with
  | empty =>
    refine yields_empty.weaken ?_
    rintro s u rfl
    rfl
  | one set =>
    refine (yields_one_cursor set).weaken ?_
    rintro s u ⟨c, rest, -, -, rfl⟩
    rfl
  | span set least most greed =>
    refine (yields_span_cursor set least most greed).weaken ?_
    rintro s u ⟨cs, rest, -, -, -, rfl⟩
    rfl
  | anchor a =>
    refine (yields_anchor a).weaken ?_
    rintro s u ⟨rfl, -⟩
    rfl
  | seq a b iha ihb =>
    rw [lacks, Bool.and_eq_true] at h
    exact ((iha h.1).seq (ihb h.2)).weaken fun s u ⟨v, hv, hu⟩ => hu.trans hv
  | alt a b iha ihb =>
    rw [lacks, Bool.and_eq_true] at h
    exact (iha h.1).alt (ihb h.2)
  | loop r least most greed ih =>
    exact Yields.loop (R := fun s u => u.groups.lookup i = s.groups.lookup i) (fun _ => rfl)
      (fun hu hv => hv.trans hu) (ih h)
  | group j r ih =>
    rw [lacks, Bool.and_eq_true, bne_iff_ne] at h
    refine ((ih h.2).group j).weaken ?_
    rintro s u ⟨v, hv, rfl⟩
    rw [record_lookup_ne h.1.symm, hv]
  | backref j rule =>
    exact (yields_backref j rule).weaken fun s u ⟨text, hu⟩ => congrArg _ (eat_groups hu)
  | look behind negated r ih =>
    refine (yields_look_cursor behind negated r).weaken ?_
    rintro s u (rfl | ⟨v, hseen, rfl⟩)
    · rfl
    · -- what has been seen begins further back, at a cursor with the same groups
      obtain ⟨w, hback, hv⟩ := (ih h).seen hseen
      exact hv.trans (congrArg _ (back?_groups hback))
  | atomic r ih => exact (ih h).atomic
  | ifGroup j yes no ihy ihn =>
    rw [lacks, Bool.and_eq_true] at h
    exact (ihy h.1).ifGroup (ihn h.2) j

/-- The text of a group at the start of a pattern is what the body of the group has consumed. -/
theorem group_of_matchAt {r rest : Regex} {R : Cursor → Cursor → Prop} (hr : Yields (run r) R)
    (hrest : rest.lacks i = true) {s : Cursor} {m : Match}
    (h : matchAt (.seq (.group i r) rest) s = some m) :
    ∃ u, R { s with groups := [] } u ∧ m.group i = s.after.take (u.pos - s.pos) := by
  rcases Option.map_eq_some_iff.mp h with ⟨t, ht, rfl⟩
  rw [run_seq, run_group] at ht
  rcases hr _ _ _ ht with ⟨u, hu, ht⟩
  have hv := (keeps_run rest hrest).rel ht
  rw [record_lookup_self] at hv
  refine ⟨u, hu, ?_⟩
  rw [Match.group, Cursor.group?, hv]
  rfl

end BlockMarkup.Regex
