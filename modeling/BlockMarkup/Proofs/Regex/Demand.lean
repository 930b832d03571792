import BlockMarkup.Proofs.Regex.Progress

/-! # Characters that a pattern demands or avoids

Many patterns want a sign that a text does not have, or not as often. `demand d r` counts how often
the pattern `r` consumes the character `d` at least, whichever way it takes (`yields_demand`). So a
text with fewer of them is not touched (`replaceAll_of_demand`), whatever else stands in it. Other signs
stand in no match of a pattern (`yields_avoids`).
-/

namespace BlockMarkup.Regex

open Cursor (spot)

variable {r : Regex} {s u v : Cursor} {d : Char} {before cs rest : List Char}

/-- How often the pattern consumes the character at least; what loops consume is not counted. -/
def demand (d : Char) : Regex → Nat
  | .one set => if set = .single d then 1 else 0
  | .span set least _ _ => if set = .single d then least else 0
  | .seq a b => demand d a + demand d b
  | .alt a b | .ifGroup _ a b => min (demand d a) (demand d b)
  | .group _ r | .atomic r => demand d r
  | .empty | .anchor _ | .loop .. | .backref .. | .look .. => 0

/-! ## Going forward -/

/-- From one cursor to the other at least `n` of the character are consumed. -/
def Consumes (d : Char) (n : Nat) (s u : Cursor) : Prop :=
  ∃ cs, s.after = cs ++ u.after ∧ n ≤ cs.count d

theorem Consumes.trans {m n : Nat} (h : Consumes d m s u) (h' : Consumes d n u v) :
    Consumes d (m + n) s v := by
  obtain ⟨cs, hcs, hm⟩ := h
  obtain ⟨cs', hcs', hn⟩ := h'
  refine ⟨cs ++ cs', by rw [hcs, hcs', List.append_assoc], ?_⟩
  rw [List.count_append]
  exact Nat.add_le_add hm hn

theorem Consumes.mono {m n : Nat} (h : Consumes d n s u) (hle : m ≤ n) : Consumes d m s u := by
  obtain ⟨cs, hcs, hn⟩ := h
  exact ⟨cs, hcs, Nat.le_trans hle hn⟩

/-- Going forward consumes something or other. -/
theorem yields_consumes_zero (d : Char) (r : Regex) : Yields (run r) (Consumes d 0) :=
  (yields_advances r).weaken fun _ _ ⟨cs, _, hafter, _⟩ => ⟨cs, hafter, Nat.zero_le _⟩

/-! ## Demands are met -/

/-- Whatever way a pattern takes, it consumes what it demands. -/
theorem yields_demand (d : Char) (r : Regex) : Yields (run r) (Consumes d (r.demand d)) := by
  induction r with
  | empty | anchor a | loop r least most greed ih | backref i rule | look behind negated r ih =>
    exact yields_consumes_zero d _
  | one set =>
    refine (yields_one set).weaken fun s u ⟨c, hc, hafter, _⟩ => ⟨[c], hafter, ?_⟩
    rw [demand]
    split
    · rename_i hset
      rw [hset, CharSet.contains_single, beq_iff_eq] at hc
      simp [hc]
    · exact Nat.zero_le _
  | span set least most greed =>
    refine (yields_span_least set least most greed).weaken fun s u ⟨cs, hafter, hle, hcs⟩ =>
      ⟨cs, hafter, ?_⟩
    rw [demand]
    split
    · rename_i hset
      have hall : ∀ c ∈ cs, d = c := by
        intro c hc
        have hsingle := hcs c hc
        rw [hset, CharSet.contains_single, beq_iff_eq] at hsingle
        exact hsingle.symm
      rwa [List.count_eq_length.mpr hall]
    · exact Nat.zero_le _
  | seq a b iha ihb => exact (iha.seq ihb).weaken fun s u ⟨v, hv, hu⟩ => hv.trans hu
  | alt a b iha ihb =>
    exact (iha.weaken fun s u h => h.mono (Nat.min_le_left _ _)).alt
      (ihb.weaken fun s u h => h.mono (Nat.min_le_right _ _))
  | group i r ih =>
    refine (ih.group i).weaken ?_
    rintro s u ⟨v, hv, rfl⟩
    exact hv
  | atomic r ih => exact ih.atomic
  | ifGroup i yes no ihy ihn =>
    exact Yields.ifGroup (ihy.weaken fun s u h => h.mono (Nat.min_le_left _ _))
      (ihn.weaken fun s u h => h.mono (Nat.min_le_right _ _)) i

/-! ## Demands that are not met -/

theorem refuses_of_demand (h : s.after.count d < r.demand d) : Refuses (run r) s :=
  refuses_of_yields (yields_demand d r) fun u ⟨cs, hafter, hle⟩ => by
    rw [hafter, List.count_append] at h
    omega

/-- What is left of a text has no more of a character than the text. -/
theorem silent_of_demand (h : (cs ++ rest).count d < r.demand d) : Silent r before cs rest := by
  intro p c q hcs
  refine refuses_of_demand (d := d) ?_ some
  rw [hcs, List.append_assoc, List.count_append] at h
  exact Nat.lt_of_le_of_lt (Nat.le_add_left _ _) h

/-- A pattern that demands a character more often than it stands in a text replaces nothing. -/
theorem replaceAll_of_demand {f : Match → List Char} {text : List Char}
    (h : text.count d < r.demand d) : replaceAll r f text = text := by
  refine replaceAll_eq_self (silent_of_demand (d := d) ?_) (refuses_of_demand (d := d) ?_ some)
  · rwa [List.append_nil]
  · exact Nat.lt_of_le_of_lt (Nat.zero_le _) h

/-! ## Characters that are avoided -/

variable {ds : List Char}

/-- Whether no match has any of the characters; loops, looks and references are not looked into. -/
def avoids (ds : List Char) : Regex → Bool
  | .empty | .anchor _ => true
  | .one set | .span set _ _ _ => ds.all fun d => !set.contains d
  | .seq a b | .alt a b => avoids ds a && avoids ds b
  | .group _ r => avoids ds r
  | .loop .. | .backref .. | .look .. | .atomic _ | .ifGroup .. => false

/-- From one cursor to the other none of the characters is passed. -/
def Skirts (ds : List Char) (s u : Cursor) : Prop :=
  ∃ cs, s.after = cs ++ u.after ∧ ∀ d ∈ ds, d ∉ cs

theorem Skirts.trans (h : Skirts ds s u) (h' : Skirts ds u v) : Skirts ds s v := by
  obtain ⟨cs, hafter, hcs⟩ := h
  obtain ⟨cs', hafter', hcs'⟩ := h'
  refine ⟨cs ++ cs', by rw [hafter, hafter', List.append_assoc], fun d hd => ?_⟩
  rw [List.mem_append, not_or]
  exact ⟨hcs d hd, hcs' d hd⟩

theorem yields_avoids (h : r.avoids ds = true) : Yields (run r) (Skirts ds) := by
  have hset : ∀ {set : CharSet} {cs : List Char}, (ds.all fun d => !set.contains d) = true →
      (∀ c ∈ cs, set.contains c = true) → ∀ d ∈ ds, d ∉ cs := by
    intro set cs hall hcs d hd hmem
    have hnot := List.all_eq_true.mp hall d hd
    rw [hcs d hmem] at hnot
    cases hnot
  induction r with
  | empty =>
    refine yields_empty.weaken ?_
    rintro s u rfl
    exact ⟨[], rfl, by simp⟩
  | anchor a =>
    refine (yields_anchor a).weaken ?_
    rintro s u ⟨rfl, -⟩
    exact ⟨[], rfl, by simp⟩
  | one set =>
    refine (yields_one set).weaken fun s u ⟨c, hc, hafter, _⟩ => ⟨[c], hafter, ?_⟩
    exact hset h (by simpa using hc)
  | span set least most greed =>
    exact (yields_span set least most greed).weaken fun s u ⟨cs, hafter, hcs, _⟩ =>
      ⟨cs, hafter, hset h hcs⟩
  | seq a b iha ihb =>
    rw [avoids, Bool.and_eq_true] at h
    exact ((iha h.1).seq (ihb h.2)).weaken fun s u ⟨v, hv, hu⟩ => hv.trans hu
  | alt a b iha ihb =>
    rw [avoids, Bool.and_eq_true] at h
    exact (iha h.1).alt (ihb h.2)
  | group i r ih =>
    refine ((ih h).group i).weaken ?_
    rintro s u ⟨v, hv, rfl⟩
    exact hv
  | loop | backref | look | atomic | ifGroup => cases h

end BlockMarkup.Regex
