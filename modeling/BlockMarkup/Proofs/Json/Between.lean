import BlockMarkup.Proofs.Json.Numerals
import BlockMarkup.Proofs.Json.Strings

/-! # Between the parts of a JSON text

Where blanks end, which characters no part begins with, so that they stand behind a number and in front of
none, and that a part leaves a text that is no longer.
-/

namespace BlockMarkup.Json

variable {s t u : List Char} {c : Char}

/-! ## Blanks -/

/-- No blank stands in front. -/
def NoBlank (t : List Char) : Prop := ∀ c, t.head? = some c → c ∉ gapChars

theorem noBlank_cons (hc : c ∉ gapChars) : NoBlank (c :: t) := by
  rintro _ ⟨rfl⟩
  exact hc

theorem rest_skipBlanks (s : Scan) : s.skipBlanks.rest = s.rest.dropWhile (· ∈ gapChars) := by
  have hblank : (fun c => c == ' ' || c == '\t' || c == '\n' || c == '\r') =
      fun c : Char => decide (c ∈ gapChars) := by
    funext c
    rw [Bool.eq_iff_iff]
    simp [gapChars, or_assoc]
  rw [Scan.skipBlanks, hblank]
  exact drop_length_takeWhile _ _

theorem gap_dropWhile (s : List Char) : Gap s (s.dropWhile (· ∈ gapChars)) := by
  induction s with
  | nil => exact .nil
  | cons c s ih =>
    by_cases hc : c ∈ gapChars
    · rw [List.dropWhile_cons_of_pos (by simpa using hc)]
      exact .cons hc ih
    · rw [List.dropWhile_cons_of_neg (by simpa using hc)]
      exact .nil

theorem gap_skipBlanks (s : Scan) : Gap s.rest s.skipBlanks.rest := by
  rw [rest_skipBlanks]
  exact gap_dropWhile s.rest

theorem Gap.dropWhile_eq (h : Gap s t) (ht : NoBlank t) : s.dropWhile (· ∈ gapChars) = t := by
  induction h with
  | @nil s =>
    cases s with
    | nil => rfl
    | cons c s => rw [List.dropWhile_cons_of_neg (by simpa using ht c rfl)]
  | cons hc _ ih => rw [List.dropWhile_cons_of_pos (by simpa using hc), ih ht]

/-- Skipping blanks ends where they end. -/
theorem Gap.skipBlanks (h : Gap s t) (ht : NoBlank t) (p : Nat) :
    ∃ p', Scan.skipBlanks ⟨s, p⟩ = ⟨t, p'⟩ := by
  obtain ⟨rest, p', hp⟩ : ∃ rest p', Scan.skipBlanks ⟨s, p⟩ = ⟨rest, p'⟩ := ⟨_, _, rfl⟩
  have hrest := rest_skipBlanks ⟨s, p⟩
  rw [hp, h.dropWhile_eq ht] at hrest
  exact ⟨p', hrest ▸ hp⟩

theorem Gap.length_le (h : Gap s t) : t.length ≤ s.length := by
  induction h with
  | nil => exact Nat.le_refl _
  | cons _ _ ih => exact Nat.le_succ_of_le ih

theorem SignAt.length_lt (h : SignAt c s t) : t.length < s.length := by
  obtain ⟨u, hs, hu⟩ := h
  exact Nat.lt_of_lt_of_le (Nat.lt_succ_of_le hu.length_le) hs.length_le

/-! ## Characters between the parts -/

/-- The characters that no part of a text begins with. -/
def betweenChars : List Char := gapChars ++ [',', ']', '\x7d', Char.ofNat 0xfeff]

theorem mem_betweenChars_of_gap (h : c ∈ gapChars) : c ∈ betweenChars :=
  List.mem_append_left _ h

/-- What is left may stand behind a value. -/
def Follows (t : List Char) : Prop := ∀ c, t.head? = some c → c ∈ betweenChars

/-- A part of a text may begin here. -/
def Begins (s : List Char) : Prop := ∃ c u, s = c :: u ∧ c ∉ betweenChars

theorem Gap.follows (h : Gap s t) (ht : Follows t) : Follows s := by
  cases h with
  | nil => exact ht
  | cons hc _ =>
    rintro c ⟨rfl⟩
    exact mem_betweenChars_of_gap hc

theorem follows_cons (hc : c ∈ betweenChars) : Follows (c :: t) := by
  rintro _ ⟨rfl⟩
  exact hc

/-- No numeral goes on with a character that stands between parts. -/
theorem not_numeral_of_mem_betweenChars (hc : c ∈ betweenChars) :
    c.isDigit = false ∧ c ≠ '.' ∧ c ≠ 'e' ∧ c ≠ 'E' := by
  have hall : (betweenChars.all fun c => !c.isDigit && c != '.' && c != 'e' && c != 'E') = true := by decide
  simpa [and_assoc] using List.all_eq_true.mp hall c hc

theorem Follows.stops (h : Follows t) : Stops t := by
  refine ⟨fun c hc => (not_numeral_of_mem_betweenChars (h c hc)).1, ?_, ?_⟩
  · rintro c u rfl
    exact absurd rfl (not_numeral_of_mem_betweenChars (h '.' rfl)).2.1
  · rintro x hx u rfl
    have hmark := not_numeral_of_mem_betweenChars (h x.mark rfl)
    obtain heq | heq := hx.mark
    · exact absurd heq hmark.2.2.1
    · exact absurd heq hmark.2.2.2

theorem Begins.noBlank (h : Begins s) : NoBlank s := by
  obtain ⟨c, u, rfl, hc⟩ := h
  rintro _ ⟨rfl⟩ hgap
  exact hc (mem_betweenChars_of_gap hgap)

theorem Begins.head?_ne (h : Begins s) (hc : c ∈ betweenChars) : s.head? ≠ some c := by
  obtain ⟨d, u, rfl, hd⟩ := h
  rintro ⟨rfl⟩
  exact hd hc

theorem begins_cons (hc : c ∉ betweenChars) : Begins (c :: s) := ⟨c, s, rfl, hc⟩

theorem Numeral.IsProper.front {n : Numeral} (hn : n.IsProper) (t : List Char) :
    ∃ d u, d.isDigit = true ∧ (n.text ++ t = d :: u ∨ n.text ++ t = '-' :: d :: u) := by
  obtain ⟨d, ds, hwhole⟩ := List.exists_cons_of_ne_nil hn.ne_nil
  refine ⟨d, ds ++ (pointed n.fraction ++ n.power) ++ t, hn.whole d (by simp [hwhole]), ?_⟩
  cases hnegative : n.negative <;> simp [Numeral.text, Numeral.sign, hnegative, hwhole]

theorem Numeral.IsProper.begins {n : Numeral} (hn : n.IsProper) (t : List Char) :
    Begins (n.text ++ t) := by
  obtain ⟨d, u, hd, h | h⟩ := hn.front t
  · rw [h]
    exact begins_cons fun hd' => by simp [(not_numeral_of_mem_betweenChars hd').1] at hd
  · rw [h]
    exact begins_cons (by decide)

theorem begins_word {w : List Char} {v : Json} (h : (w, v) ∈ wordValues) (t : List Char) :
    Begins (w ++ t) := by
  simp only [wordValues, List.mem_cons, Prod.mk.injEq, List.not_mem_nil, or_false] at h
  obtain ⟨rfl, -⟩ | ⟨rfl, -⟩ | ⟨rfl, -⟩ | ⟨rfl, -⟩ | ⟨rfl, -⟩ | ⟨rfl, -⟩ := h <;>
    exact begins_cons (by decide)

theorem Denotes.begins {part : Part} (h : Denotes s part t) : Begins s := by
  induction h with
  | word h => exact begins_word h _
  | number hn => exact hn.begins _
  | string => exact begins_cons (by decide)
  | emptyArray | array => exact begins_cons (by decide)
  | emptyObject | object => exact begins_cons (by decide)
  | lastItem _ _ ih => exact ih
  | item _ _ _ ih => exact ih
  | lastMember hkey | member hkey =>
    obtain ⟨_, _, _, rfl, -⟩ := hkey
    exact begins_cons (by decide)

theorem Overlong.begins {place : Place} (h : Overlong place s) : Begins s := by
  induction h with
  | number hn => exact hn.begins _
  | array | object => exact begins_cons (by decide)
  | firstItem _ ih => exact ih
  | laterItem hitem => exact hitem.begins
  | firstMember hkey | laterMember hkey =>
    obtain ⟨_, _, _, rfl, -⟩ := hkey
    exact begins_cons (by decide)

/-! ## Lengths -/

theorem Quoted.length_le {cs : List Char} (h : Quoted s cs t) : t.length ≤ s.length := by
  induction h with
  | close => exact Nat.le_succ _
  | plain _ _ _ _ ih => exact Nat.le_succ_of_le ih
  | short _ _ ih => exact Nat.le_succ_of_le (Nat.le_succ_of_le ih)
  | code hn _ _ ih => exact Nat.le_trans ih hn.length_le
  | pair hn _ hm _ _ ih => exact Nat.le_trans ih (Nat.le_trans hm.length_le hn.length_le)

theorem KeyAt.length_lt {key : String} (h : KeyAt key s t) : t.length < s.length := by
  obtain ⟨s', cs, u, rfl, hquoted, -, hsign⟩ := h
  exact Nat.lt_succ_of_le (Nat.le_trans (Nat.le_of_lt hsign.length_lt) hquoted.length_le)

theorem Denotes.length_le {part : Part} (h : Denotes s part t) : t.length ≤ s.length := by
  have hend : ∀ {c : Char} {s t : List Char}, Gap s (c :: t) → t.length ≤ s.length := fun h =>
    Nat.le_of_succ_le h.length_le
  induction h with
  | word | number => exact (List.suffix_append _ _).length_le
  | string hquoted => exact Nat.le_succ_of_le hquoted.length_le
  | emptyArray hgap | emptyObject hgap => exact Nat.le_succ_of_le (hend hgap)
  | array hgap _ ih | object hgap _ ih => exact Nat.le_succ_of_le (Nat.le_trans ih hgap.length_le)
  | lastItem _ hgap ih => exact Nat.le_trans (hend hgap) ih
  | item _ hcomma _ ih ihrest =>
    exact Nat.le_trans ihrest (Nat.le_trans (Nat.le_of_lt hcomma.length_lt) ih)
  | lastMember hkey _ hgap ih =>
    exact Nat.le_trans (hend hgap) (Nat.le_trans ih (Nat.le_of_lt hkey.length_lt))
  | member hkey _ hcomma _ ih ihrest =>
    exact Nat.le_trans ihrest (Nat.le_trans (Nat.le_of_lt hcomma.length_lt)
      (Nat.le_trans ih (Nat.le_of_lt hkey.length_lt)))

end BlockMarkup.Json
