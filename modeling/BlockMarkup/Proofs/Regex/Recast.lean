import BlockMarkup.Proofs.Regex.Progress

/-! # Replacement inside of a part

A part of a text that no match leaves is replaced by itself: stretches of it become other texts, and
the rest stays (`Recast`, `exists_recast`). What the stretches have in common is a parameter, and the
lemmas here say what of the part is kept accordingly.
-/

namespace BlockMarkup.Regex

open Cursor (spot)

variable {r : Regex} {f : Match → List Char} {good : List Char → List Char → Prop}
  {s t out out' before : List Char} {d : Char}

/-- The second text is the first one with some stretches replaced, each together with its replacement
good. -/
inductive Recast (good : List Char → List Char → Prop) : List Char → List Char → Prop where
  | nil : Recast good [] []
  | keep {s out : List Char} (c : Char) : Recast good s out → Recast good (c :: s) (c :: out)
  | swap {s out cs w : List Char} : good cs w → Recast good s out → Recast good (cs ++ s) (w ++ out)

/-- Where all replacements are empty, nothing comes in. -/
theorem Recast.sublist (h : Recast good s out) (hgood : ∀ cs w, good cs w → w = []) :
    out.Sublist s := by
  induction h with
  | nil => exact .slnil
  | keep c _ ih => exact ih.cons_cons c
  | @swap s out cs w hcs _ ih =>
    rw [hgood cs w hcs]
    exact ih.trans (List.sublist_append_right cs s)

theorem Recast.mem (h : Recast good s out) (hd : d ∈ out) :
    d ∈ s ∨ ∃ cs w, good cs w ∧ d ∈ w := by
  induction h with
  | nil => exact Or.inl hd
  | keep c _ ih =>
    rcases List.mem_cons.mp hd with rfl | hd
    · exact Or.inl List.mem_cons_self
    · exact (ih hd).imp_left (List.mem_cons_of_mem c)
  | @swap s out cs w hgood _ ih =>
    rcases List.mem_append.mp hd with hd | hd
    · exact Or.inr ⟨cs, w, hgood, hd⟩
    · exact (ih hd).imp_left (List.mem_append_right cs)

/-- A part is recast, if matches that begin in it end in it, and the text behind it is replaced on its
own. -/
theorem exists_recast (hr : 0 < r.shortest)
    (hinside : ∀ before y u, y ≠ [] → y <:+ s → run r (spot before (y ++ t) []) some = some u →
      ∃ cs y', y = cs ++ y' ∧ u.after = y' ++ t ∧ good cs (f ⟨spot before (y ++ t) [], u⟩))
    (ht : Rewrites r f (s.reverse ++ before) t out') :
    ∃ out, Recast good s out ∧ Rewrites r f before (s ++ t) (out ++ out') := by
  -- the induction is on what is left of the part, of which a match may take several characters
  induction hlength : s.length using Nat.strongRecOn generalizing s before with
  | ind length ih =>
    subst hlength
    by_cases hs : s = []
    · subst hs
      exact ⟨[], .nil, ht⟩
    cases hrun : run r (spot before (s ++ t) []) some with
    | none =>
      obtain ⟨c, y, rfl⟩ := List.exists_cons_of_ne_nil hs
      have hrest : Rewrites r f (y.reverse ++ c :: before) t out' := by simpa using ht
      obtain ⟨out, hout, hrewrites⟩ := ih y.length (Nat.lt_succ_self _)
        (fun before z u hne hz => hinside before z u hne (hz.trans (List.suffix_cons _ _))) hrest rfl
      exact ⟨c :: out, hout.keep c, .skip hrun hrewrites⟩
    | some u =>
      obtain ⟨cs, y, rfl, hafter, hgood⟩ := hinside before s u hs (List.suffix_refl _) hrun
      obtain ⟨cs', rest, hsplit, hle, hu⟩ := exists_of_run hrun
      have hrest : u.after = rest := by rw [hu]; rfl
      rw [← hrest, hafter, List.append_assoc] at hsplit
      obtain rfl : cs = cs' := List.append_cancel_right hsplit
      have hcs : cs ≠ [] := List.ne_nil_of_length_pos (Nat.lt_of_lt_of_le hr hle)
      have hshorter : y.length < (cs ++ y).length := by
        have hpos := List.length_pos_iff.mpr hcs
        rw [List.length_append]
        omega
      have hbehind : Rewrites r f (y.reverse ++ (cs.reverse ++ before)) t out' := by
        rwa [List.reverse_append, List.append_assoc] at ht
      obtain ⟨out, hout, hrewrites⟩ := ih y.length hshorter
        (fun before z u hne hz => hinside before z u hne (hz.trans (List.suffix_append _ _))) hbehind rfl
      refine ⟨_, hout.swap hgood, ?_⟩
      rw [← hrest, hafter] at hu
      rw [hu, List.append_assoc] at hrun ⊢
      rw [List.append_assoc]
      exact .hit hcs hrun hrewrites

end BlockMarkup.Regex
