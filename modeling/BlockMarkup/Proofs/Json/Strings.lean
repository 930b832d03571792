import BlockMarkup.Proofs.Json.Grammar
import BlockMarkup.Proofs.Result

/-! # Reading strings

The reader takes the inside of a string up to its closing quote (`readString_ok`, `readString_of_quoted`).
Two halves of a pair are read as one character; a half that stands alone is read by itself.
-/

namespace BlockMarkup.Json

variable {s s' t u : List Char} {n m : Nat}

/-! ## Codes -/

theorem hexCode?_append {ds : List Char} (hlength : ds.length = 4) (t : List Char) :
    hexCode? (ds ++ t) = hexCode? ds := by
  have htake : (ds ++ t).take 4 = ds.take 4 := List.take_append_of_le_length (Nat.le_of_eq hlength.symm)
  simp only [hexCode?, htake]

theorem CodeAt.escape (h : CodeAt n s t) : ∃ u, s = '\\' :: 'u' :: u := by
  obtain ⟨ds, -, -, hs⟩ := h
  exact ⟨_, hs⟩

theorem codeAt_iff : CodeAt n ('\\' :: 'u' :: s) t ↔ hexCode? s = some n ∧ s.drop 4 = t := by
  constructor
  · rintro ⟨ds, hlength, hcode, hs⟩
    obtain rfl : s = ds ++ t := by simpa using hs
    exact ⟨by rw [hexCode?_append hlength, hcode], by rw [← hlength, List.drop_left]⟩
  · rintro ⟨hcode, rfl⟩
    have hlength : (s.take 4).length = 4 := by
      simp only [hexCode?, Option.ite_none_right_eq_some] at hcode
      exact hcode.1.1
    refine ⟨s.take 4, hlength, ?_, by simp⟩
    rwa [← hexCode?_append hlength (s.drop 4), List.take_append_drop]

theorem Quoted.ne_nil {cs : List Char} (h : Quoted s cs t) : s ≠ [] := by
  cases h with
  | close | plain | short => simp
  | code hn | pair hn => obtain ⟨ds, -, -, rfl⟩ := hn; simp

/-- A code in front of a string is its first code. -/
theorem Quoted.codeAt {cs : List Char} (h : Quoted ('\\' :: 'u' :: s) cs t) :
    ∃ n u, CodeAt n ('\\' :: 'u' :: s) u ∧ u ≠ [] := by
  cases h with
  | plain _ hescape => exact absurd rfl hescape
  | short he => cases he
  | code hn _ h => exact ⟨_, _, hn, h.ne_nil⟩
  | pair hn _ hm =>
    refine ⟨_, _, hn, ?_⟩
    obtain ⟨ds, -, -, rfl⟩ := hm
    simp

theorem Quoted.ne_nil_of_codeAt {cs : List Char} (h : Quoted s cs t) (hm : CodeAt m s u) : u ≠ [] := by
  obtain ⟨more, rfl⟩ := hm.escape
  obtain ⟨n, v, hn, hne⟩ := h.codeAt
  rwa [← (codeAt_iff.mp hm).2, (codeAt_iff.mp hn).2]

/-- The faults of too long an integer. -/
def FaultAt.IsLong (e : FaultAt) : Prop := ∃ digits, e.fault = .longInteger digits

theorem readCodeEscape_ok {c : Char} {k p : Nat} (h : readCodeEscape ⟨s, p⟩ = .ok (c, k)) :
    ∃ n u, CodeAt n ('\\' :: 'u' :: s) u ∧
      (k = 4 ∧ c = codeChar n ∧ (IsHigh n → ∀ m v, CodeAt m u v → v ≠ [] → ¬ IsLow m) ∨
        k = 10 ∧ IsHigh n ∧ ∃ m v, CodeAt m u v ∧ IsLow m ∧ c = pairChar n m ∧ v = s.drop 10) := by
  unfold readCodeEscape at h
  dsimp only at h
  split at h
  · cases h
  · next n hn =>
    split at h
    · cases h
    · refine ⟨n, s.drop 4, codeAt_iff.mpr ⟨hn, rfl⟩, ?_⟩
      split at h
      · -- another escape follows, and may be the second half of a pair
        next more hmore =>
        split_ifs at h with hhigh
        · split at h
          · cases h
          · next m hm =>
            split_ifs at h with hlow <;> obtain ⟨rfl, rfl⟩ := Prod.mk.inj (Except.ok.inj h)
            · refine .inr ⟨rfl, ⟨hhigh.1, hhigh.2.1⟩, m, more.drop 4, ?_, hlow, rfl, ?_⟩
              · rw [hmore, codeAt_iff]
                exact ⟨hm, rfl⟩
              · have hdrop : more = s.drop 6 := by
                  rw [show (6 : Nat) = 4 + 2 from rfl, ← List.drop_drop, hmore]
                  rfl
                rw [hdrop, List.drop_drop]
            · refine .inl ⟨rfl, rfl, fun _ m' v hv _ hlow' => hlow ?_⟩
              rw [hmore, codeAt_iff, hm] at hv
              cases hv.1
              exact hlow'
        · -- it is looked at only if there is something behind it
          cases h
          refine .inl ⟨rfl, rfl, fun hhigh' m v hv hne _ => hhigh ⟨hhigh'.1, hhigh'.2, ?_⟩⟩
          rw [hmore, codeAt_iff] at hv
          by_contra hshort
          exact hne (hv.2 ▸ List.drop_eq_nil_of_le (Nat.le_of_not_gt hshort))
      · next hmore =>
        cases h
        refine .inl ⟨rfl, rfl, fun _ m v hv _ _ => ?_⟩
        obtain ⟨ds, -, -, hu⟩ := hv
        exact hmore _ hu

theorem readCodeEscape_error {e : FaultAt} {s : Scan} (h : readCodeEscape s = .error e) :
    ¬ e.IsLong := by
  have hfault : e.fault = .badUnicodeEscape := by
    unfold readCodeEscape at h
    grind
  rintro ⟨digits, hlong⟩
  rw [hfault] at hlong
  cases hlong

theorem length_of_codeAt (h : CodeAt n ('\\' :: 'u' :: s) t) : s.length = t.length + 4 := by
  obtain ⟨ds, hlength, -, hs⟩ := h
  obtain rfl : s = ds ++ t := by simpa using hs
  rw [List.length_append, hlength, Nat.add_comm]

theorem CodeAt.length_le (h : CodeAt n s t) : t.length ≤ s.length := by
  obtain ⟨ds, -, -, rfl⟩ := h
  simp only [List.length_cons, List.length_append]
  omega

/-- The code of a character, and not of the first half of a pair. -/
theorem readCodeEscape_code {cs : List Char} (hn : CodeAt n ('\\' :: 'u' :: s) s')
    (hlone : IsHigh n → ∀ m u, CodeAt m s' u → ¬ IsLow m) (h : Quoted s' cs t) (p : Nat) :
    readCodeEscape ⟨s, p⟩ = .ok (codeChar n, 4) := by
  obtain ⟨hcode, hdrop⟩ := codeAt_iff.mp hn
  have hlength : ¬ s.length ≤ 4 := by
    have hpos := List.length_pos_iff.mpr h.ne_nil
    have hs := length_of_codeAt hn
    omega
  unfold readCodeEscape
  simp only [hcode, hdrop, if_neg hlength]
  split
  · next more =>
    split_ifs with hhigh
    · obtain ⟨m, u, hm, -⟩ := h.codeAt
      rw [(codeAt_iff.mp hm).1]
      exact if_neg (hlone ⟨hhigh.1, hhigh.2.1⟩ m u hm)
    · rfl
  · rfl

theorem readCodeEscape_pair (hn : CodeAt n ('\\' :: 'u' :: s) s') (hhigh : IsHigh n)
    (hm : CodeAt m s' t) (hlow : IsLow m) (hne : t ≠ []) (p : Nat) :
    readCodeEscape ⟨s, p⟩ = .ok (pairChar n m, 10) := by
  obtain ⟨hcode, hdrop⟩ := codeAt_iff.mp hn
  obtain ⟨more, rfl⟩ := hm.escape
  have hmore : 4 < more.length := by
    have hpos := List.length_pos_iff.mpr hne
    have hs := length_of_codeAt hm
    omega
  have hlength : ¬ s.length ≤ 4 := by
    have hs := length_of_codeAt hn
    simp only [List.length_cons] at hs
    omega
  unfold readCodeEscape
  simp only [hcode, hdrop, if_neg hlength, (codeAt_iff.mp hm).1]
  rw [if_pos ⟨hhigh.1, hhigh.2, hmore⟩]
  exact if_pos hlow

/-! ## Strings -/

theorem Scan.advance_rest (k : Nat) (s : Scan) : (s.advance k).rest = s.rest.drop k := rfl

theorem readStringFrom_ok {start fuel : Nat} {out : List Char} {s s' : Scan} {str : String}
    (h : readStringFrom start fuel out s = .ok (str, s')) :
    ∃ cs, Quoted s.rest cs s'.rest ∧ str = String.ofList (out.reverse ++ cs) := by
  induction fuel generalizing out s with
  | zero => cases h
  | succ fuel ih =>
    unfold readStringFrom at h
    split at h
    · cases h
    · -- the closing quote
      next u hs =>
      cases h
      exact ⟨[], by rw [hs, Scan.advance_rest, hs]; exact .close, by simp⟩
    · cases h
    · -- a code, or two of them
      next u hs =>
      obtain ⟨⟨c, k⟩, hcode, h⟩ := bind_eq_ok.mp h
      obtain ⟨cs, hcs, rfl⟩ := ih h
      have hadvance : s.advance 2 = ⟨u, s.pos + 2⟩ := by simp [Scan.advance, hs]
      rw [hadvance] at hcode
      obtain ⟨n, v, hn, hk⟩ := readCodeEscape_ok hcode
      refine ⟨c :: cs, ?_, by simp⟩
      rw [Scan.advance_rest, hs, ← List.drop_drop] at hcs
      rw [hs]
      obtain ⟨hk, hc, hlone⟩ | ⟨hk, hhigh, m, w, hm, hlow, hc, hw⟩ := hk
      · have hv : u.drop 4 = v := (codeAt_iff.mp hn).2
        rw [hk] at hcs
        rw [hc]
        have hcs' : Quoted v cs s'.rest := hv ▸ hcs
        exact .code hn (fun hhigh m w hm => hlone hhigh m w hm (hcs'.ne_nil_of_codeAt hm)) hcs'
      · rw [hk] at hcs
        rw [hc]
        have hcs' : Quoted w cs s'.rest := hw ▸ hcs
        exact .pair hn hhigh hm hlow hcs'
    · -- a short escape
      next e u _ _ hs =>
      split at h
      · next c he =>
        obtain ⟨cs, hcs, rfl⟩ := ih h
        rw [Scan.advance_rest, hs] at hcs
        exact ⟨c :: cs, hs ▸ .short he hcs, by simp⟩
      · cases h
    · -- a character that stands for itself
      next c u _ _ _ _ hs =>
      split_ifs at h with hcontrol
      · cases h
      · obtain ⟨cs, hcs, rfl⟩ := ih h
        rw [Scan.advance_rest, hs] at hcs
        refine ⟨c :: cs, hs ▸ .plain ?_ ?_ (Nat.lt_of_not_le hcontrol) hcs, by simp⟩
        · rintro rfl
          simp_all
        · rintro rfl
          cases u <;> simp_all

theorem readStringFrom_error {start fuel : Nat} {out : List Char} {s : Scan} {e : FaultAt}
    (h : readStringFrom start fuel out s = .error e) : ¬ e.IsLong := by
  have hnot : ∀ (f : Fault) (p : Nat), (∀ d, f ≠ .longInteger d) → ¬ FaultAt.IsLong ⟨f, p⟩ :=
    fun f p hf hlong => hlong.elim fun d => hf d
  induction fuel generalizing out s with
  | zero =>
    cases h
    exact hnot _ _ (by simp)
  | succ fuel ih =>
    unfold readStringFrom at h
    split at h
    · cases h
      exact hnot _ _ (by simp)
    · cases h
    · cases h
      exact hnot _ _ (by simp)
    · obtain hcode | ⟨_, _, h⟩ := bind_eq_error.mp h
      · exact readCodeEscape_error hcode
      · exact ih h
    · split at h
      · exact ih h
      · cases h
        exact hnot _ _ (by simp)
    · split_ifs at h
      · cases h
        exact hnot _ _ (by simp)
      · exact ih h

section Steps

variable {start fuel p : Nat} {out : List Char} {c e : Char}

theorem readStringFrom_plain (hquote : c ≠ '"') (hescape : c ≠ '\\') (hcontrol : 0x1f < c.toNat) :
    readStringFrom start (fuel + 1) out ⟨c :: s, p⟩ = readStringFrom start fuel (c :: out) ⟨s, p + 1⟩ := by
  rw [readStringFrom]
  simp only
  split
  · simp_all
  · simp_all
  · simp_all
  · simp_all
  · simp_all
  · next d tail _ _ _ _ hs =>
    obtain ⟨rfl, rfl⟩ := List.cons.inj hs
    exact if_neg (Nat.not_le_of_lt hcontrol)

theorem readStringFrom_short (he : shortEscape? e = some c) :
    readStringFrom start (fuel + 1) out ⟨'\\' :: e :: s, p⟩ =
      readStringFrom start fuel (c :: out) ⟨s, p + 2⟩ := by
  have hu : e ≠ 'u' := by
    rintro rfl
    cases he
  rw [readStringFrom]
  simp only
  split <;> simp_all [Scan.advance]

theorem readStringFrom_code :
    readStringFrom start (fuel + 1) out ⟨'\\' :: 'u' :: s, p⟩ =
      readCodeEscape ⟨s, p + 2⟩ >>= fun (c, k) =>
        readStringFrom start fuel (c :: out) ⟨('\\' :: 'u' :: s).drop (2 + k), p + (2 + k)⟩ := by
  rw [readStringFrom]
  rfl

end Steps

theorem readStringFrom_of_quoted {cs : List Char} (h : Quoted s cs t) {start fuel : Nat}
    (hfuel : s.length < fuel) (out : List Char) (p : Nat) :
    ∃ p', readStringFrom start fuel out ⟨s, p⟩ = .ok (String.ofList (out.reverse ++ cs), ⟨t, p'⟩) := by
  induction h generalizing fuel out p with
  | close =>
    obtain ⟨fuel, rfl⟩ := Nat.exists_eq_add_one_of_ne_zero (Nat.ne_zero_of_lt hfuel)
    exact ⟨p + 1, by simp [readStringFrom, Scan.advance]⟩
  | plain hquote hescape hcontrol h ih =>
    obtain ⟨fuel, rfl⟩ := Nat.exists_eq_add_one_of_ne_zero (Nat.ne_zero_of_lt hfuel)
    rw [readStringFrom_plain hquote hescape hcontrol, List.append_cons, ← List.reverse_cons]
    exact ih (Nat.lt_of_succ_lt_succ hfuel) _ _
  | short he h ih =>
    obtain ⟨fuel, rfl⟩ := Nat.exists_eq_add_one_of_ne_zero (Nat.ne_zero_of_lt hfuel)
    rw [readStringFrom_short he, List.append_cons, ← List.reverse_cons]
    simp only [List.length_cons] at hfuel
    exact ih (by omega) _ _
  | code hn hlone h ih =>
    obtain ⟨fuel, rfl⟩ := Nat.exists_eq_add_one_of_ne_zero (Nat.ne_zero_of_lt hfuel)
    obtain ⟨u, rfl⟩ := hn.escape
    have hlength := length_of_codeAt hn
    simp only [List.length_cons] at hfuel
    rw [readStringFrom_code, readCodeEscape_code hn hlone h, List.append_cons, ← List.reverse_cons]
    obtain ⟨-, rfl⟩ := codeAt_iff.mp hn
    exact ih (by omega) _ _
  | pair hn hhigh hm hlow h ih =>
    obtain ⟨fuel, rfl⟩ := Nat.exists_eq_add_one_of_ne_zero (Nat.ne_zero_of_lt hfuel)
    obtain ⟨u, rfl⟩ := hn.escape
    obtain ⟨v, rfl⟩ := hm.escape
    have hlength := length_of_codeAt hn
    have hlength' := length_of_codeAt hm
    simp only [List.length_cons] at hfuel hlength
    have hdrop : u.drop 10 = v.drop 4 := by
      rw [show (10 : Nat) = 4 + 6 from rfl, ← List.drop_drop, (codeAt_iff.mp hn).2]
      rfl
    rw [readStringFrom_code, readCodeEscape_pair hn hhigh hm hlow h.ne_nil, List.append_cons,
      ← List.reverse_cons]
    obtain ⟨-, rfl⟩ := codeAt_iff.mp hm
    rw [← hdrop] at ih hlength'
    exact ih (by omega) _ _

/-! ## Whole strings -/

theorem readString_ok {s s' : Scan} {str : String} (h : readString s = .ok (str, s')) :
    ∃ cs, Quoted s.rest cs s'.rest ∧ str = String.ofList cs := by
  obtain ⟨cs, hcs, hstr⟩ := readStringFrom_ok h
  exact ⟨cs, hcs, hstr⟩

theorem readString_error {s : Scan} {e : FaultAt} (h : readString s = .error e) : ¬ e.IsLong :=
  readStringFrom_error h

theorem readString_of_quoted {cs : List Char} (h : Quoted s cs t) (p : Nat) :
    ∃ p', readString ⟨s, p⟩ = .ok (String.ofList cs, ⟨t, p'⟩) :=
  readStringFrom_of_quoted h (Nat.lt_succ_self _) [] p

end BlockMarkup.Json
