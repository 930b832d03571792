import Mathlib.Data.List.TakeDrop
import BlockMarkup.Proofs.Json.Grammar

/-! # Reading numbers

The reader finds the numeral at the front of a text (`readNumber_text`) and nothing else (`readNumber_ok`,
`readNumber_error`). It takes as many characters as can belong to the numeral, which is why what is left has
to stop it.
-/

namespace BlockMarkup.Json

variable {s t u : List Char} {c : Char}

/-! ## Digits -/

/-- No digit stands in front. -/
def NoDigit (t : List Char) : Prop := ∀ c, t.head? = some c → c.isDigit = false

theorem noDigit_dropWhile (s : List Char) : NoDigit (s.dropWhile Char.isDigit) := by
  intro c hc
  have hhead := List.head?_dropWhile_not Char.isDigit s
  rw [hc] at hhead
  simpa using hhead

theorem isDigit_of_mem_takeWhile (h : c ∈ s.takeWhile Char.isDigit) : c.isDigit = true := by
  have hall := List.all_takeWhile (p := Char.isDigit) (l := s)
  exact List.all_eq_true.mp hall c h

theorem drop_length_takeWhile (p : Char → Bool) (s : List Char) :
    s.drop (s.takeWhile p).length = s.dropWhile p := by
  have hdrop : (s.takeWhile p ++ s.dropWhile p).drop (s.takeWhile p).length = s.dropWhile p :=
    List.drop_left
  rwa [List.takeWhile_append_dropWhile] at hdrop

theorem takeWhile_of_noDigit (h : NoDigit t) : t.takeWhile Char.isDigit = [] := by
  cases t with
  | nil => rfl
  | cons c t => rw [List.takeWhile_cons_of_neg (by simp [h c rfl])]

theorem takeWhile_append_digits (hs : ∀ c ∈ s, c.isDigit = true) (ht : NoDigit t) :
    (s ++ t).takeWhile Char.isDigit = s := by
  rw [List.takeWhile_append_of_pos hs, takeWhile_of_noDigit ht, List.append_nil]

/-! ## Exponents -/

/-- The exponent that a mark may begin: a sign, if there is one, and the digits behind it. -/
def exponentAt (mark : Char) : List Char → Exponent
  | '-' :: s => ⟨mark, ['-'], s.takeWhile Char.isDigit⟩
  | '+' :: s => ⟨mark, ['+'], s.takeWhile Char.isDigit⟩
  | s => ⟨mark, [], s.takeWhile Char.isDigit⟩

theorem exponentAt_split (mark : Char) (s : List Char) :
    ∃ u, NoDigit u ∧ mark :: s = (exponentAt mark s).text ++ u := by
  fun_cases exponentAt mark s with
  | case1 s => exact ⟨s.dropWhile Char.isDigit, noDigit_dropWhile s, by simp [Exponent.text]⟩
  | case2 s => exact ⟨s.dropWhile Char.isDigit, noDigit_dropWhile s, by simp [Exponent.text]⟩
  | case3 => exact ⟨s.dropWhile Char.isDigit, noDigit_dropWhile s, by simp [Exponent.text]⟩

theorem isProper_exponentAt {mark : Char} (hmark : mark = 'e' ∨ mark = 'E')
    (hdigits : (exponentAt mark s).digits ≠ []) : (exponentAt mark s).IsProper := by
  fun_cases exponentAt mark s <;>
    exact ⟨hmark, by simp, by simpa [exponentAt] using hdigits, fun _ => isDigit_of_mem_takeWhile⟩

theorem exponentAt_append {x : Exponent} (hx : x.IsProper) (ht : NoDigit t) :
    exponentAt x.mark (x.sign ++ (x.digits ++ t)) = x := by
  obtain ⟨mark, sign, digits⟩ := x
  have hdigits := takeWhile_append_digits hx.isDigit ht
  obtain hsign | hsign | hsign : sign = [] ∨ sign = ['+'] ∨ sign = ['-'] := hx.sign
  · obtain ⟨d, ds, rfl⟩ := List.exists_cons_of_ne_nil hx.ne_nil
    have hd : d.isDigit = true := hx.isDigit d (by simp)
    have hminus : d ≠ '-' := by rintro rfl; exact absurd hd (by decide)
    have hplus : d ≠ '+' := by rintro rfl; exact absurd hd (by decide)
    subst hsign
    simp_all [exponentAt]
  · subst hsign
    simpa [exponentAt] using hdigits
  · subst hsign
    simpa [exponentAt] using hdigits

/-- The exponent at the front of a text. -/
def exponent? : List Char → Option Exponent
  | mark :: s =>
    if (mark = 'e' ∨ mark = 'E') ∧ (exponentAt mark s).digits ≠ [] then some (exponentAt mark s)
    else none
  | [] => none

theorem exponent?_spec {x : Exponent} (h : exponent? s = some x) :
    x.IsProper ∧ ∃ u, NoDigit u ∧ s = x.text ++ u := by
  cases s with
  | nil => simp [exponent?] at h
  | cons mark s =>
    simp only [exponent?, Option.ite_none_right_eq_some, Option.some.injEq] at h
    obtain ⟨⟨hmark, hdigits⟩, rfl⟩ := h
    exact ⟨isProper_exponentAt hmark hdigits, exponentAt_split mark s⟩

theorem exponent?_text {x : Exponent} (hx : x.IsProper) (ht : NoDigit t) :
    exponent? (x.text ++ t) = some x := by
  rw [Exponent.text, List.cons_append, List.append_assoc, exponent?, exponentAt_append hx ht,
    if_pos ⟨hx.mark, hx.ne_nil⟩]

theorem exponent?_eq_none_iff :
    exponent? t = none ↔ ∀ x : Exponent, x.IsProper → ∀ u, t ≠ x.text ++ u := by
  constructor
  · -- an exponent in front could take the digits behind it as well
    rintro h ⟨mark, sign, digits⟩ hx u rfl
    have hlonger : Exponent.IsProper ⟨mark, sign, digits ++ u.takeWhile Char.isDigit⟩ :=
      ⟨hx.mark, hx.sign, by simp [hx.ne_nil], fun c hc =>
        (List.mem_append.mp hc).elim (hx.isDigit c) isDigit_of_mem_takeWhile⟩
    have hread := exponent?_text hlonger (noDigit_dropWhile u)
    have hsame : (Exponent.mk mark sign (digits ++ u.takeWhile Char.isDigit)).text ++
        u.dropWhile Char.isDigit = (Exponent.mk mark sign digits).text ++ u := by
      simp [Exponent.text]
    rw [hsame, h] at hread
    exact absurd hread (by simp)
  · intro h
    cases hread : exponent? t with
    | none => rfl
    | some x =>
      obtain ⟨hx, u, -, hu⟩ := exponent?_spec hread
      exact absurd hu (h x hx u)

theorem readExponent_eq (s : List Char) :
    readExponent s = (exponent? s).map fun x => (x.value, x.text.length) := by
  cases s with
  | nil => rfl
  | cons mark s =>
    fun_cases exponentAt mark s with
    | case1 s =>
      simp only [readExponent, exponent?, exponentAt, Exponent.value, Exponent.text]
      grind
    | case2 s =>
      simp only [readExponent, exponent?, exponentAt, Exponent.value, Exponent.text]
      grind
    | case3 =>
      simp only [readExponent, exponent?, exponentAt, Exponent.value, Exponent.text]
      grind

/-! ## Numerals -/

/-- The digits at the front of a text that an integer may have: a zero stands alone. -/
def wholeDigits : List Char → List Char
  | '0' :: _ => ['0']
  | s => s.takeWhile Char.isDigit

/-- The number at the front of a text that has no sign. -/
def digitsAt (negative : Bool) (s : List Char) : Numeral :=
  let whole := wholeDigits s
  let fraction := fractionDigits (s.drop whole.length)
  ⟨negative, whole, fraction, exponent? ((s.drop whole.length).drop (pointed fraction).length)⟩

/-- The numeral at the front of a text; without digits there is none. -/
def numeralAt (s : List Char) : Numeral :=
  if s.head? = some '-' then digitsAt true s.tail else digitsAt false s

/-! ## Reading a number in its parts -/

/-- Reads a number whose digits are known, from the exponent on. -/
def numberFrom (start : Scan) (negative : Bool) (whole fraction : List Char) (s : Scan) :
    Except FaultAt (Option (Json × Scan)) :=
  match readExponent s.rest with
  | some (e, n) =>
    .ok (some (.float (.ofDecimal negative (decimal (whole ++ fraction)) (e - fraction.length)),
      s.advance n))
  | none =>
    if !fraction.isEmpty then
      .ok (some (.float (.ofDecimal negative (decimal (whole ++ fraction)) (-fraction.length)), s))
    else if whole.length > digitLimit then start.fail (.longInteger whole.length)
    else .ok (some (.int (if negative then -(decimal whole : Int) else decimal whole), s))

theorem numberFrom_eq (start : Scan) (negative : Bool) (whole fraction : List Char) (s : Scan) :
    numberFrom start negative whole fraction s =
      let n : Numeral := ⟨negative, whole, fraction, exponent? s.rest⟩
      if n.IsLong then start.fail (.longInteger whole.length)
      else .ok (some (n.value, s.advance n.power.length)) := by
  rw [numberFrom, readExponent_eq]
  cases exponent? s.rest with
  | some x => simp [Numeral.IsLong, Numeral.isInteger, Numeral.value, Numeral.power]
  | none =>
    cases fraction <;>
      simp [Numeral.IsLong, Numeral.isInteger, Numeral.value, Numeral.power, Scan.advance]

/-- Reads a number from its digits on. -/
def digitsFrom (start : Scan) (negative : Bool) (s : Scan) : Except FaultAt (Option (Json × Scan)) :=
  if (wholeDigits s.rest).isEmpty then .ok none
  else
    let fraction := fractionDigits (s.advance (wholeDigits s.rest).length).rest
    numberFrom start negative (wholeDigits s.rest) fraction
      (if fraction.isEmpty then s.advance (wholeDigits s.rest).length
      else (s.advance (wholeDigits s.rest).length).advance (fraction.length + 1))

theorem digitsFrom_eq (start : Scan) (negative : Bool) (s : Scan) :
    digitsFrom start negative s =
      let n := digitsAt negative s.rest
      if n.whole.isEmpty then .ok none
      else if n.IsLong then start.fail (.longInteger n.whole.length)
      else .ok (some (n.value, s.advance (n.whole ++ (pointed n.fraction ++ n.power)).length)) := by
  have hpoint : ∀ (fraction : List Char) (s : Scan),
      (if fraction.isEmpty then s else s.advance (fraction.length + 1)) =
        s.advance (pointed fraction).length := by
    intro fraction s
    cases fraction <;> simp [pointed, Scan.advance]
  simp only [digitsFrom, hpoint, numberFrom_eq]
  simp only [digitsAt, Scan.advance, List.drop_drop, List.length_append, Nat.add_assoc]

theorem readNumber_eq_digitsFrom (s : Scan) : readNumber s =
    if s.rest.head? = some '-' then digitsFrom s true (s.advance 1) else digitsFrom s false s := by
  by_cases hminus : s.rest.head? = some '-'
  · obtain ⟨u, hu⟩ := List.head?_eq_some_iff.mp hminus
    rw [if_pos hminus, readNumber, hu]
    rfl
  · rw [if_neg hminus, readNumber]
    split
    next negative s1 hsign =>
      split at hsign
      · next u hu => exact absurd (by rw [hu]; rfl) hminus
      · cases hsign
        rfl

theorem Scan.advance_advance (m n : Nat) (s : Scan) : (s.advance m).advance n = s.advance (m + n) := by
  simp [Scan.advance, Nat.add_assoc]

theorem readNumber_eq (s : Scan) : readNumber s =
    if (numeralAt s.rest).whole.isEmpty then .ok none
    else if (numeralAt s.rest).IsLong then s.fail (.longInteger (numeralAt s.rest).whole.length)
    else .ok (some ((numeralAt s.rest).value, s.advance (numeralAt s.rest).text.length)) := by
  rw [readNumber_eq_digitsFrom, digitsFrom_eq, digitsFrom_eq, numeralAt]
  split
  · have htext : (digitsAt true s.rest.tail).text.length =
        1 + ((digitsAt true s.rest.tail).whole ++ (pointed (digitsAt true s.rest.tail).fraction ++
          (digitsAt true s.rest.tail).power)).length := by
      simp [Numeral.text, Numeral.sign, digitsAt, Nat.add_comm]
    have hrest : (s.advance 1).rest = s.rest.tail := List.drop_one
    simp only [hrest, htext, Scan.advance_advance]
  · simp [Numeral.text, Numeral.sign, digitsAt]

/-! ## The numeral in front of a text -/

theorem isDigit_of_mem_wholeDigits (h : c ∈ wholeDigits s) : c.isDigit = true := by
  fun_cases wholeDigits s with
  | case1 s => simp_all [wholeDigits]
  | case2 => exact isDigit_of_mem_takeWhile (s := s) (by simpa [wholeDigits] using h)

theorem wholeDigits_zero (h : (wholeDigits s).head? = some '0') : wholeDigits s = ['0'] := by
  by_cases hzero : ∃ u, s = '0' :: u
  · obtain ⟨u, rfl⟩ := hzero
    rfl
  · have hwhole : wholeDigits s = s.takeWhile Char.isDigit :=
      wholeDigits.eq_2 s fun u hu => hzero ⟨u, hu⟩
    rw [hwhole, List.head?_takeWhile, Option.filter_eq_some_iff] at h
    obtain ⟨u, hu⟩ := List.head?_eq_some_iff.mp h.1
    exact absurd ⟨u, hu⟩ hzero

theorem wholeDigits_isPrefix (s : List Char) : wholeDigits s <+: s := by
  fun_cases wholeDigits s with
  | case1 s => exact ⟨s, rfl⟩
  | case2 => exact List.takeWhile_prefix _

/-- A zero stands alone also in front of a digit. -/
theorem noDigit_drop_wholeDigits (h : 1 < (wholeDigits s).length) :
    NoDigit (s.drop (wholeDigits s).length) := by
  by_cases hzero : ∃ u, s = '0' :: u
  · obtain ⟨u, rfl⟩ := hzero
    exact absurd h (Nat.lt_irrefl 1)
  · rw [wholeDigits.eq_2 s fun u hu => hzero ⟨u, hu⟩, drop_length_takeWhile]
    exact noDigit_dropWhile s

theorem wholeDigits_append (hne : s ≠ []) (hzero : s.head? = some '0' → s = ['0'])
    (hs : ∀ c ∈ s, c.isDigit = true) (ht : NoDigit t) : wholeDigits (s ++ t) = s := by
  obtain ⟨d, ds, rfl⟩ := List.exists_cons_of_ne_nil hne
  by_cases hd : d = '0'
  · rw [hzero (by simp [hd])]
    rfl
  · rw [wholeDigits.eq_2 _ (by rintro u hu; exact hd (List.cons.inj hu).1), takeWhile_append_digits hs ht]

theorem fractionDigits_eq_nil_iff :
    fractionDigits t = [] ↔ ∀ c u, t = '.' :: c :: u → c.isDigit = false := by
  by_cases hpoint : ∃ u, t = '.' :: u
  · obtain ⟨u, rfl⟩ := hpoint
    cases u <;> simp [fractionDigits, List.takeWhile_cons]
  · rw [fractionDigits.eq_2 t fun u hu => hpoint ⟨u, hu⟩]
    exact iff_of_true rfl fun c u hu => absurd ⟨_, hu⟩ hpoint

theorem isDigit_of_mem_fractionDigits (h : c ∈ fractionDigits s) : c.isDigit = true := by
  fun_cases fractionDigits s with
  | case1 s => exact isDigit_of_mem_takeWhile (s := s) (by simpa [fractionDigits] using h)
  | case2 => simp_all [fractionDigits]

theorem pointed_fractionDigits_isPrefix (s : List Char) : pointed (fractionDigits s) <+: s := by
  fun_cases fractionDigits s with
  | case1 s =>
    rw [pointed]
    split
    · exact List.nil_prefix
    · exact (List.prefix_cons_inj '.').mpr (List.takeWhile_prefix _)
  | case2 => exact List.nil_prefix

theorem fractionDigits_append (hs : ∀ c ∈ s, c.isDigit = true) (ht : NoDigit t)
    (hnone : s = [] → fractionDigits t = []) : fractionDigits (pointed s ++ t) = s := by
  cases s with
  | nil => exact hnone rfl
  | cons d ds => exact takeWhile_append_digits hs ht

/-- The digits belong to a proper number in front; behind a long integer the number stops. -/
theorem digitsAt_spec (negative : Bool) (hne : (digitsAt negative s).whole ≠ []) :
    (digitsAt negative s).IsProper ∧ ∃ t, s = (digitsAt negative s).whole ++
      (pointed (digitsAt negative s).fraction ++ ((digitsAt negative s).power ++ t)) ∧
      ((digitsAt negative s).IsLong → Stops t) := by
  obtain ⟨u, hu⟩ : ∃ u, s.drop (wholeDigits s).length = u := ⟨_, rfl⟩
  obtain ⟨v, hv⟩ : ∃ v, u.drop (pointed (fractionDigits u)).length = v := ⟨_, rfl⟩
  have hs : wholeDigits s ++ u = s := hu ▸ List.prefix_iff_eq_append.mp (wholeDigits_isPrefix s)
  have hpointed : pointed (fractionDigits u) ++ v = u :=
    hv ▸ List.prefix_iff_eq_append.mp (pointed_fractionDigits_isPrefix u)
  have hn : digitsAt negative s = ⟨negative, wholeDigits s, fractionDigits u, exponent? v⟩ := by
    simp only [digitsAt, hu, hv]
  rw [hn] at hne ⊢
  refine ⟨⟨hne, wholeDigits_zero, fun _ => isDigit_of_mem_wholeDigits,
    fun _ => isDigit_of_mem_fractionDigits, fun x hx => (exponent?_spec hx).1⟩, ?_⟩
  cases hx : exponent? v with
  | some x =>
    obtain ⟨-, t, -, ht⟩ := exponent?_spec hx
    refine ⟨t, ?_, fun hlong => by simp [Numeral.IsLong, Numeral.isInteger] at hlong⟩
    simp only [Numeral.power, Option.map_some, Option.getD_some, ← ht, hpointed, hs]
  | none =>
    refine ⟨v, ?_, fun hlong => ?_⟩
    · simp only [Numeral.power, Option.map_none, Option.getD_none, List.nil_append, hpointed, hs]
    · -- fraction and exponent were looked for behind the digits, in vain
      obtain ⟨hinteger, hlength⟩ := hlong
      have hfraction : fractionDigits u = [] := by simpa [Numeral.isInteger] using hinteger
      obtain rfl : v = u := by simpa [hfraction, pointed] using hpointed
      have hdigit : NoDigit v := hu ▸ noDigit_drop_wholeDigits (Nat.lt_trans (by decide) hlength)
      exact ⟨hdigit, fractionDigits_eq_nil_iff.mp hfraction, exponent?_eq_none_iff.mp hx⟩

theorem power_append {n : Numeral} (hn : n.IsProper) (ht : Stops t) :
    NoDigit (n.power ++ t) ∧ fractionDigits (n.power ++ t) = [] ∧
      exponent? (n.power ++ t) = n.exponent := by
  cases hx : n.exponent with
  | none =>
    have hpower : n.power = [] := by simp [Numeral.power, hx]
    rw [hpower]
    exact ⟨ht.digit, fractionDigits_eq_nil_iff.mpr ht.fraction, exponent?_eq_none_iff.mpr ht.exponent⟩
  | some x =>
    have hproper : x.IsProper := hn.exponent x hx
    have hpower : n.power = x.text := by simp [Numeral.power, hx]
    have hmark : x.mark.isDigit = false ∧ x.mark ≠ '.' := by
      obtain hmark | hmark := hproper.mark <;> rw [hmark] <;> decide
    rw [hpower]
    refine ⟨?_, ?_, exponent?_text hproper ht.digit⟩
    · rintro c ⟨rfl⟩
      exact hmark.1
    · refine fractionDigits_eq_nil_iff.mpr fun c u hu => ?_
      exact absurd (List.cons.inj hu).1 hmark.2

theorem digitsAt_append {n : Numeral} (hn : n.IsProper) (ht : Stops t) :
    digitsAt n.negative (n.whole ++ (pointed n.fraction ++ (n.power ++ t))) = n := by
  obtain ⟨hpower, hnone, hexponent⟩ := power_append hn ht
  have hpoint : NoDigit (pointed n.fraction ++ (n.power ++ t)) := by
    rw [pointed]
    split
    · exact hpower
    · rintro c ⟨rfl⟩
      rfl
  have hwhole := wholeDigits_append hn.ne_nil hn.zero hn.whole hpoint
  have hfraction := fractionDigits_append hn.fraction hpower fun _ => hnone
  simp [digitsAt, hwhole, hfraction, hexponent]

theorem numeralAt_spec (hne : (numeralAt s).whole ≠ []) :
    (numeralAt s).IsProper ∧ ∃ t, s = (numeralAt s).text ++ t ∧ ((numeralAt s).IsLong → Stops t) := by
  by_cases hminus : ∃ u, s = '-' :: u
  · obtain ⟨u, rfl⟩ := hminus
    obtain ⟨hproper, t, ht, hstops⟩ := digitsAt_spec true hne
    refine ⟨hproper, t, ?_, hstops⟩
    simpa [Numeral.text, Numeral.sign, numeralAt, digitsAt] using ht
  · have hat : numeralAt s = digitsAt false s :=
      if_neg fun h => hminus (List.head?_eq_some_iff.mp h)
    rw [hat] at hne ⊢
    obtain ⟨hproper, t, ht, hstops⟩ := digitsAt_spec false hne
    refine ⟨hproper, t, ?_, hstops⟩
    simpa [Numeral.text, Numeral.sign, digitsAt] using ht

theorem numeralAt_text {n : Numeral} (hn : n.IsProper) (ht : Stops t) :
    numeralAt (n.text ++ t) = n := by
  have hdigits := digitsAt_append hn ht
  cases hnegative : n.negative with
  | true =>
    rw [hnegative] at hdigits
    simpa [Numeral.text, Numeral.sign, numeralAt, hnegative] using hdigits
  | false =>
    obtain ⟨d, ds, hwhole⟩ := List.exists_cons_of_ne_nil hn.ne_nil
    have hd : d.isDigit = true := hn.whole d (by simp [hwhole])
    have hminus : d ≠ '-' := by rintro rfl; exact absurd hd (by decide)
    rw [hnegative] at hdigits
    simpa [Numeral.text, Numeral.sign, numeralAt, hnegative, hwhole, hminus] using hdigits

/-! ## What the reader returns -/

/-- A number in front of a text that stops it is read, unless it is too long. -/
theorem readNumber_text {n : Numeral} (hn : n.IsProper) (ht : Stops t) (p : Nat) :
    readNumber ⟨n.text ++ t, p⟩ =
      if n.IsLong then .error ⟨.longInteger n.whole.length, p⟩
      else .ok (some (n.value, ⟨t, p + n.text.length⟩)) := by
  rw [readNumber_eq]
  simp only [numeralAt_text hn ht, Scan.fail, Scan.advance, List.drop_left]
  rw [if_neg (by simp [hn.ne_nil])]

/-- What is read is a number in front of the text. -/
theorem readNumber_ok {s s' : Scan} {v : Json} (h : readNumber s = .ok (some (v, s'))) :
    ∃ n : Numeral, n.IsProper ∧ s.rest = n.text ++ s'.rest ∧ v = n.value := by
  rw [readNumber_eq] at h
  split_ifs at h with hnone hlong
  · cases h
  · cases h
  · obtain ⟨hproper, t, ht, -⟩ := numeralAt_spec (s := s.rest) (by simpa using hnone)
    cases h
    have hprefix : (numeralAt s.rest).text <+: s.rest := ⟨t, ht.symm⟩
    exact ⟨_, hproper, (List.prefix_iff_eq_append.mp hprefix).symm, rfl⟩

/-- What is refused is an integer that is too long and goes no further. -/
theorem readNumber_error {s : Scan} {e : FaultAt} (h : readNumber s = .error e) :
    ∃ (n : Numeral) (t : List Char), n.IsProper ∧ n.IsLong ∧ Stops t ∧ s.rest = n.text ++ t := by
  rw [readNumber_eq] at h
  split_ifs at h with hnone hlong
  obtain ⟨hproper, t, ht, hstops⟩ := numeralAt_spec (s := s.rest) (by simpa using hnone)
  exact ⟨_, t, hproper, hlong, hstops hlong, ht⟩

end BlockMarkup.Json
