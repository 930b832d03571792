import BlockMarkup.Proofs.Regex.Progress
import BlockMarkup.Markup.Token

/-! # Cutting goes forward

Every step in which markup is cut takes some of it: a tag (`readTag_forward`), a reference
(`readReference_forward`), raw text (`readRaw_advances`), a text (`readText_advances`) or a construct that
is not complete (`readIncomplete_advances`).
-/

namespace BlockMarkup.Markup.Token

open BlockMarkup.Regex (Cursor Advances)

variable {s t : Cursor} {c : Char} {r : Regex} {m : Regex.Match}

/-! ## Cursors and matches -/

theorem advances_advance (n : Nat) (s : Cursor) : Advances 0 s (s.advance n) := by
  induction n generalizing s with
  | zero => exact Regex.advances_refl s
  | succ n ih =>
    rw [Cursor.advance]
    split
    · exact Regex.advances_refl s
    · next c rest h =>
      have hnext : s.next? = some { s with before := c :: s.before, after := rest, pos := s.pos + 1 } := by
        rw [Cursor.next?, h]
      exact ((Regex.advances_next? hnext).mono (Nat.zero_le 1)).trans (ih _)

theorem advances_advance_succ (n : Nat) (h : s.after ≠ []) : Advances 1 s (s.advance (n + 1)) := by
  obtain ⟨c, rest, hafter⟩ := List.exists_cons_of_ne_nil h
  have hnext : s.next? = some { s with before := c :: s.before, after := rest, pos := s.pos + 1 } := by
    rw [Cursor.next?, hafter]
  rw [Cursor.advance, hafter]
  exact (Regex.advances_next? hnext).trans (advances_advance n _)

theorem advances_past? (h : past? c s = some t) : Advances 1 s t := by
  obtain ⟨n, hn, rfl⟩ := Option.map_eq_some_iff.mp h
  refine advances_advance_succ n fun hnil => ?_
  simp [hnil] at hn

theorem advances_run (h : Regex.run r s some = some t) : Advances r.shortest s t :=
  (Regex.yields_advances r).rel h

theorem advances_matchAt (h : Regex.matchAt r s = some m) : Advances r.shortest s m.stop := by
  obtain ⟨u, hu, rfl⟩ := Option.map_eq_some_iff.mp h
  have hadvances := advances_run hu
  exact hadvances

theorem advances_findFrom {before after : List Char} {pos : Nat} {groups : List (Nat × Regex.Capture)}
    (h : r.findFrom false before after pos = some m) :
    Advances 0 ⟨before, after, pos, groups⟩ m.start ∧
      Advances r.shortest ⟨before, after, pos, groups⟩ m.stop := by
  induction after generalizing before pos with
  | nil =>
    obtain ⟨u, hu, rfl⟩ := Option.map_eq_some_iff.mp h
    have hadvances := advances_run hu
    exact ⟨⟨[], Nat.le_refl _, rfl, rfl, rfl⟩, hadvances⟩
  | cons c after ih =>
    rw [Regex.findFrom] at h
    split at h
    · next u hu =>
      cases h
      have hadvances := advances_run hu
      exact ⟨⟨[], Nat.le_refl _, rfl, rfl, rfl⟩, hadvances⟩
    · obtain ⟨hstart, hstop⟩ := ih h
      have hnext : Advances 0 ⟨before, c :: after, pos, groups⟩ ⟨c :: before, after, pos + 1, groups⟩ :=
        ⟨[c], Nat.zero_le 1, rfl, rfl, rfl⟩
      exact ⟨hnext.trans hstart, by simpa using hnext.trans hstop⟩

theorem advances_search? (h : search? r s = some m) :
    Advances 0 s m.start ∧ Advances r.shortest s m.stop :=
  advances_findFrom h

/-! ## Tags -/

/-- A step goes forward. -/
def Forward (s : Cursor) (r : Step) : Prop := ∀ ts rest, r = some (ts, rest) → Advances 1 s rest

theorem forward_none : Forward s none := fun _ _ h => by cases h

theorem advances_tagEnd? (h : tagEnd? s = some t) : Advances 1 s t := by
  rw [tagEnd?] at h
  split at h
  · cases h
  · next m hm =>
    have hstop : Advances 1 s m.stop := (advances_matchAt hm).mono (by decide)
    split at h
    · cases h
    · cases h
      exact hstop.trans (advances_advance 1 _)
    · cases h
      exact hstop.trans (advances_advance 2 _)
    · split at h
      · cases h
      · cases h
        exact hstop

theorem readStartTag_forward (s : Cursor) : Forward s (readStartTag s) := by
  intro ts rest h
  obtain ⟨stop, hstop, h⟩ := Option.bind_eq_some_iff.mp h
  obtain ⟨m, -, h⟩ := Option.bind_eq_some_iff.mp h
  have hadvances := advances_tagEnd? hstop
  dsimp only at h
  split at h
  · cases h
    exact hadvances
  · split at h <;> cases h <;> exact hadvances

theorem readEndTag_forward (s : Cursor) : Forward s (readEndTag s) := by
  intro ts rest h
  obtain ⟨stop, hstop, h⟩ := Option.bind_eq_some_iff.mp h
  have hpast := (advances_advance 1 s).trans (advances_past? hstop)
  split at h
  · next m hm =>
    cases h
    exact (advances_matchAt hm).mono (by decide)
  · split at h
    · next m hm =>
      obtain ⟨stop', hstop', h⟩ := Option.bind_eq_some_iff.mp h
      cases h
      have hname := (advances_advance 2 s).trans (advances_matchAt hm)
      exact (hname.trans (advances_past? hstop')).mono (Nat.le_add_left _ _)
    · dsimp only at h
      split at h <;> cases h <;> exact hpast

theorem readToAngle_forward (skip : Nat) (make : List Char → Token) (s : Cursor) :
    Forward s (readToAngle skip make s) := by
  intro ts rest h
  obtain ⟨stop, hstop, h⟩ := Option.bind_eq_some_iff.mp h
  cases h
  exact (advances_advance skip s).trans (advances_past? hstop)

theorem readComment_forward (s : Cursor) : Forward s (readComment s) := by
  intro ts rest h
  obtain ⟨m, hm, h⟩ := Option.bind_eq_some_iff.mp h
  cases h
  exact ((advances_advance 4 s).trans (advances_search? hm).2).mono (by decide)

theorem readSection_forward {r : Step} (h : readSection s = .ok r) : Forward s r := by
  -- a section goes up to the end that its keyword asks for
  have hupTo : ∀ e : Regex, 1 ≤ e.shortest → Forward s ((search? e (s.advance 3)).map fun m =>
      ([.section ((s.advance 3).textTo m.start)], m.stop)) := by
    intro e he ts rest h
    obtain ⟨m, hm, h⟩ := Option.map_eq_some_iff.mp h
    cases h
    exact ((advances_advance 3 s).trans (advances_search? hm).2).mono (by simpa using he)
  rw [readSection] at h
  dsimp only at h
  split at h
  · cases h
    exact forward_none
  · split at h
    · cases h
    · split at h
      · cases h
        exact forward_none
      · split at h
        · cases h
          exact hupTo _ (by decide)
        · split at h
          · cases h
            exact hupTo _ (by decide)
          · cases h

theorem readDeclaration_forward {r : Step} (h : readDeclaration s = .ok r) : Forward s r := by
  rw [readDeclaration] at h
  split at h
  · exact readSection_forward h
  · split at h
    · cases h
      intro ts rest h
      obtain ⟨stop, hstop, h⟩ := Option.bind_eq_some_iff.mp h
      cases h
      exact (advances_advance 9 s).trans (advances_past? hstop)
    · cases h
      exact readToAngle_forward _ _ _

theorem readTag_forward {r : Step} (h : readTag s = .ok r) : Forward s r := by
  rw [readTag] at h
  split at h
  · cases h
    exact readEndTag_forward s
  · cases h
    exact readComment_forward s
  · cases h
    exact readToAngle_forward _ _ _
  · exact readDeclaration_forward h
  · next hafter =>
    cases h
    split
    · exact readStartTag_forward s
    · intro ts rest h
      cases h
      exact advances_advance_succ 0 (by simp [hafter])
  · cases h
    exact forward_none

/-! ## Everything else -/

theorem advances_skipSemicolon (s : Cursor) : Advances 0 s (skipSemicolon s) := by
  rw [skipSemicolon]
  split
  · exact advances_advance 1 s
  · exact Regex.advances_refl s

theorem readReference_forward (s : Cursor) : Forward s (readReference s) := by
  have hnumeric : s.after ≠ [] → Forward s (readNumericReference s) := by
    intro hne ts rest h
    rw [readNumericReference] at h
    dsimp only at h
    split at h
    · cases h
    · obtain ⟨-, h⟩ := Option.ite_none_left_eq_some.mp h
      cases h
      have hbody := advances_advance_succ 1 hne
      exact (hbody.trans (advances_advance _ _)).trans (advances_skipSemicolon _)
  have hnamed : s.after ≠ [] → Forward s (readNamedReference s) := by
    intro hne ts rest h
    obtain ⟨-, h⟩ := Option.ite_none_left_eq_some.mp h
    cases h
    have hbody := advances_advance_succ 0 hne
    exact (hbody.trans (advances_advance _ _)).trans (advances_skipSemicolon _)
  rw [readReference]
  split
  · next hafter => exact hnumeric (by simp [hafter])
  · next hafter =>
    split
    · exact hnamed (by simp [hafter])
    · intro ts rest h
      cases h
      exact advances_advance_succ 0 (by simp [hafter])
  · exact forward_none

theorem readText_advances (h : s.after.head? = some c) (hangle : c ≠ '<') (hmark : c ≠ '&') :
    Advances 1 s (readText s).2 := by
  obtain ⟨rest, hrest⟩ := List.head?_eq_some_iff.mp h
  rw [readText, hrest, List.takeWhile_cons_of_pos (by simp [hangle, hmark])]
  exact advances_advance_succ _ (by simp [hrest])

theorem readIncomplete_advances (h : s.after ≠ []) : Advances 1 s (readIncomplete s).2 := by
  have hnext := advances_advance_succ 0 h
  rw [readIncomplete]
  dsimp only
  split
  · next ht => exact (hnext.trans (advances_past? ht)).mono (Nat.le_add_left _ _)
  · split
    · exact hnext.trans (advances_advance _ _)
    · exact hnext

theorem readRaw_advances {name : String} {ts : List Token} {raw : Option String}
    (h : readRaw name s = some (ts, t, raw)) : Advances 1 s t := by
  obtain ⟨m, hm, h⟩ := Option.bind_eq_some_iff.mp h
  obtain ⟨hstart, hstop⟩ := advances_search? hm
  have hshortest : 1 ≤ (Pattern.rawEnd name).shortest := Nat.le_add_left _ _
  dsimp only at h
  split at h
  · next e he =>
    have hend : Advances 1 s e.stop := (hstart.trans (advances_matchAt he)).mono (by decide)
    split at h <;> cases h <;> exact hend
  · cases h
    exact hstop.mono hshortest

end BlockMarkup.Markup.Token
