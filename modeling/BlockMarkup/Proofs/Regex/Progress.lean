import BlockMarkup.Proofs.Regex.Preferred

/-! # Progress of a pattern

What a pattern hands on lies ahead of what it is given, by as many characters as its shortest match has
at least (`yields_advances`). So the matches of a pattern that cannot match nothing follow one another,
and every text has its rewriting (`exists_rewrites`): what is said of all rewritings is said of the
result of `replaceAll`.
-/

namespace BlockMarkup.Regex

open Cursor (spot)

variable {r : Regex} {s u v : Cursor} {m n : Nat}

/-- The second cursor is reached from the first one over at least `n` characters. -/
def Advances (n : Nat) (s u : Cursor) : Prop :=
  ∃ cs, n ≤ cs.length ∧ s.after = cs ++ u.after ∧ u.before = cs.reverse ++ s.before ∧
    u.pos = s.pos + cs.length

theorem advances_refl (s : Cursor) : Advances 0 s s := ⟨[], Nat.zero_le _, rfl, rfl, rfl⟩

theorem Advances.trans (h : Advances m s u) (h' : Advances n u v) : Advances (m + n) s v := by
  obtain ⟨cs, hm, hafter, hbefore, hpos⟩ := h
  obtain ⟨cs', hn, hafter', hbefore', hpos'⟩ := h'
  refine ⟨cs ++ cs', ?_, by rw [hafter, hafter', List.append_assoc], ?_, ?_⟩
  · rw [List.length_append]
    exact Nat.add_le_add hm hn
  · rw [hbefore', hbefore, List.reverse_append, List.append_assoc]
  · rw [hpos', hpos, List.length_append, Nat.add_assoc]

theorem Advances.mono (h : Advances n s u) (hle : m ≤ n) : Advances m s u := by
  obtain ⟨cs, hn, hcs⟩ := h
  exact ⟨cs, Nat.le_trans hle hn, hcs⟩

theorem advances_next? (h : s.next? = some u) : Advances 1 s u := by
  rw [Cursor.next?] at h
  split at h
  · cases h
  · rename_i c rest hafter
    cases h
    exact ⟨[c], Nat.le_refl 1, hafter, rfl, rfl⟩

theorem advances_eat {rule : CaseRule} {text : List Char} (h : eat rule text s = some u) :
    Advances 0 s u := by
  induction text generalizing s with
  | nil =>
    cases h
    exact advances_refl _
  | cons c text ih =>
    rw [eat] at h
    split at h
    · split at h
      · obtain ⟨w, hw, hu⟩ := Option.bind_eq_some_iff.mp h
        exact ((advances_next? hw).mono (Nat.zero_le 1)).trans (ih hu)
      · cases h
    · cases h

/-- How long the matches of a pattern are at least; those of loops are not counted. -/
def shortest : Regex → Nat
  | .one _ => 1
  | .span _ least _ _ => least
  | .seq a b => shortest a + shortest b
  | .alt a b | .ifGroup _ a b => min (shortest a) (shortest b)
  | .group _ r | .atomic r => shortest r
  | .empty | .anchor _ | .loop .. | .backref .. | .look .. => 0

/-- Whatever way a pattern takes, it goes forward. -/
theorem yields_advances (r : Regex) : Yields (run r) (Advances r.shortest) := by
  induction r with
  | empty =>
    refine yields_empty.weaken ?_
    rintro s u rfl
    exact advances_refl u
  | one set =>
    refine (yields_one_cursor set).weaken ?_
    rintro s u ⟨c, rest, -, hafter, rfl⟩
    exact ⟨[c], Nat.le_refl 1, hafter, rfl, rfl⟩
  | span set least most greed =>
    refine (yields_span_cursor set least most greed).weaken ?_
    rintro s u ⟨cs, rest, hafter, -, hle, rfl⟩
    exact ⟨cs, hle, hafter, rfl, rfl⟩
  | anchor a =>
    refine (yields_anchor a).weaken ?_
    rintro s u ⟨rfl, -⟩
    exact advances_refl u
  | seq a b iha ihb => exact (iha.seq ihb).weaken fun s u ⟨v, hv, hu⟩ => hv.trans hu
  | alt a b iha ihb =>
    exact (iha.weaken fun s u h => h.mono (Nat.min_le_left _ _)).alt
      (ihb.weaken fun s u h => h.mono (Nat.min_le_right _ _))
  | loop r least most greed ih =>
    -- a loop may end without a round
    exact Yields.loop (R := Advances 0) advances_refl (fun hu hv => hu.trans hv)
      (ih.weaken fun s u h => h.mono (Nat.zero_le _))
  | group i r ih =>
    refine (ih.group i).weaken ?_
    rintro s u ⟨v, hv, rfl⟩
    exact hv
  | backref i rule => exact (yields_backref i rule).weaken fun s u ⟨text, hu⟩ => advances_eat hu
  | look behind negated r =>
    refine (yields_look_cursor behind negated r).weaken ?_
    rintro s u (rfl | ⟨v, -, rfl⟩)
    · exact advances_refl u
    · exact advances_refl s
  | atomic r ih => exact ih.atomic
  | ifGroup i yes no ihy ihn =>
    exact Yields.ifGroup (ihy.weaken fun s u h => h.mono (Nat.min_le_left _ _))
      (ihn.weaken fun s u h => h.mono (Nat.min_le_right _ _)) i

variable {before after : List Char} {groups : List (Nat × Capture)} {f : Match → List Char}

/-- A match consumes a part of the text. -/
theorem exists_of_run (h : run r (spot before after groups) some = some u) :
    ∃ cs rest, after = cs ++ rest ∧ r.shortest ≤ cs.length ∧
      u = spot (cs.reverse ++ before) rest u.groups := by
  obtain ⟨cs, hle, hafter, hbefore, hpos⟩ := (yields_advances r).rel h
  refine ⟨cs, u.after, hafter, hle, ?_⟩
  obtain ⟨ubefore, uafter, upos, ugroups⟩ := u
  have hpos' : upos = before.length + cs.length := hpos
  have hbefore' : ubefore = cs.reverse ++ before := hbefore
  rw [hpos', hbefore', spot, List.length_append, List.length_reverse, Nat.add_comm]

/-- Where no match is empty, all matches can be replaced one after the other. -/
theorem exists_rewrites (h : 0 < r.shortest) (f : Match → List Char) (before s : List Char) :
    ∃ out, Rewrites r f before s out := by
  -- the induction is on what is left of the text: a match takes some of it, as no match is empty
  induction hlength : s.length using Nat.strongRecOn generalizing before s with
  | ind length ih =>
    subst hlength
    cases hrun : run r (spot before s []) some with
    | none =>
      cases s with
      | nil => exact ⟨[], .nil hrun⟩
      | cons c rest =>
        obtain ⟨out, hout⟩ := ih rest.length (Nat.lt_succ_self _) (c :: before) rest rfl
        exact ⟨c :: out, .skip hrun hout⟩
    | some u =>
      obtain ⟨cs, rest, rfl, hle, hu⟩ := exists_of_run hrun
      have hcs : cs ≠ [] := List.ne_nil_of_length_pos (Nat.lt_of_lt_of_le h hle)
      have hshorter : rest.length < (cs ++ rest).length := by
        have hpos := List.length_pos_iff.mpr hcs
        rw [List.length_append]
        omega
      obtain ⟨out, hout⟩ := ih rest.length hshorter (cs.reverse ++ before) rest rfl
      rw [hu] at hrun
      exact ⟨_, .hit hcs hrun hout⟩

theorem rewrites_replaceAll (h : 0 < r.shortest) (f : Match → List Char) (s : List Char) :
    Rewrites r f [] s (replaceAll r f s) := by
  obtain ⟨out, hout⟩ := exists_rewrites h f [] s
  rwa [hout.replaceAll]

/-- A text begins with a run of characters that a test holds for, which goes as far as it can. -/
theorem exists_run (test : Char → Bool) (s : List Char) :
    ∃ cs rest, s = cs ++ rest ∧ (∀ c ∈ cs, test c = true) ∧ ∀ c, rest.head? = some c → test c = false := by
  refine ⟨s.takeWhile test, s.dropWhile test, List.takeWhile_append_dropWhile.symm,
    List.all_eq_true.mp List.all_takeWhile, fun c hc => ?_⟩
  have hnot := List.head?_dropWhile_not test s
  rw [hc] at hnot
  simpa using hnot

end BlockMarkup.Regex
