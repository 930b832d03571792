import BlockMarkup.Proofs.Json.Numerals
import BlockMarkup.Proofs.Json.Strings
import BlockMarkup.Proofs.Text.Lines

/-! # JSON and line breaks

Line breaks are blanks between the parts of a JSON text and stand in none of them, so unifying them changes
neither what the text denotes (`isJson_unifyBreaks`) nor where its first integer of too many digits stands
(`isOverlong_unifyBreaks`).
-/

namespace BlockMarkup.Json

open Text

variable {s t u w t' : List Char} {c : Char} {n : Nat}

/-! ## Texts without line breaks -/

/-- No line break is among the characters. -/
def Unbroken (w : List Char) : Prop := '\r' ∉ w ∧ '\n' ∉ w

instance (w : List Char) : Decidable (Unbroken w) := inferInstanceAs (Decidable ('\r' ∉ w ∧ '\n' ∉ w))

theorem unbroken_of_forall (h : ∀ c ∈ w, c ≠ '\r' ∧ c ≠ '\n') : Unbroken w :=
  ⟨fun hmem => (h _ hmem).1 rfl, fun hmem => (h _ hmem).2 rfl⟩

theorem unify_cons (hc : Unbroken [c]) (s : List Char) : unifyBreaks (c :: s) = c :: unifyBreaks s :=
  unifyBreaks_append hc.1 s

theorem exists_of_unify_eq_cons (hc : Unbroken [c]) (h : unifyBreaks s = c :: t') :
    ∃ t, s = c :: t ∧ unifyBreaks t = t' :=
  exists_of_unifyBreaks_eq_append hc.2 h

theorem unbroken_word {v : Json} (h : (w, v) ∈ wordValues) : Unbroken w := by
  simp only [wordValues, List.mem_cons, Prod.mk.injEq, List.not_mem_nil, or_false] at h
  obtain ⟨rfl, -⟩ | ⟨rfl, -⟩ | ⟨rfl, -⟩ | ⟨rfl, -⟩ | ⟨rfl, -⟩ | ⟨rfl, -⟩ := h <;> decide

theorem ne_break_of_isDigit (h : c.isDigit = true) : c ≠ '\r' ∧ c ≠ '\n' := by
  constructor <;> (rintro rfl; exact absurd h (by decide))

theorem Exponent.IsProper.unbroken {x : Exponent} (hx : x.IsProper) : Unbroken x.text := by
  refine unbroken_of_forall fun c hc => ?_
  simp only [Exponent.text, List.mem_cons, List.mem_append] at hc
  obtain rfl | hc | hc := hc
  · obtain h | h := hx.mark <;> rw [h] <;> decide
  · obtain h | h | h := hx.sign <;> rw [h] at hc <;> simp at hc <;> subst hc <;> decide
  · exact ne_break_of_isDigit (hx.isDigit c hc)

theorem Numeral.IsProper.unbroken {n : Numeral} (hn : n.IsProper) : Unbroken n.text := by
  refine unbroken_of_forall fun c hc => ?_
  simp only [Numeral.text, List.mem_append] at hc
  obtain hc | hc | hc | hc := hc
  · obtain rfl : c = '-' := by
      simp only [Numeral.sign] at hc
      split at hc <;> simp_all
    decide
  · exact ne_break_of_isDigit (hn.whole c hc)
  · rw [pointed] at hc
    split at hc
    · cases hc
    · obtain rfl | hc := List.mem_cons.mp hc
      · decide
      · exact ne_break_of_isDigit (hn.fraction c hc)
  · rw [Numeral.power] at hc
    cases hx : n.exponent with
    | none => simp [hx] at hc
    | some x =>
      simp only [hx, Option.map_some, Option.getD_some] at hc
      have hunbroken := (hn.exponent x hx).unbroken
      exact ⟨fun h => hunbroken.1 (h ▸ hc), fun h => hunbroken.2 (h ▸ hc)⟩

theorem unbroken_code {ds : List Char} (hlength : ds.length = 4) (h : hexCode? ds = some n) :
    Unbroken ('\\' :: 'u' :: ds) := by
  have hdigits : ∀ c ∈ ds, (Text.hexDigit? c.toLower).isSome = true := by
    simp only [hexCode?, Option.ite_none_right_eq_some] at h
    rw [← List.take_of_length_le (Nat.le_of_eq hlength)]
    exact List.all_eq_true.mp h.1.2
  refine unbroken_of_forall fun c hc => ?_
  obtain rfl | rfl | hc : c = '\\' ∨ c = 'u' ∨ c ∈ ds := by simpa using hc
  · decide
  · decide
  · constructor <;> (rintro rfl; exact absurd (hdigits _ hc) (by decide))

/-! ## Blanks and signs -/

theorem Gap.unify (h : Gap s t) : Gap (unifyBreaks s) (unifyBreaks t) := by
  induction h with
  | nil => exact .nil
  | @cons c s t hc h ih =>
    by_cases hreturn : c = '\r'
    · subst hreturn
      obtain heq | heq := unifyBreaks_return s <;> rw [heq]
      · exact .cons (by decide) ih
      · exact ih
    · rw [show c :: s = [c] ++ s from rfl, unifyBreaks_append (by simpa using Ne.symm hreturn)]
      exact .cons hc ih

theorem Gap.unify_cons (hc : Unbroken [c]) (h : Gap s (c :: t)) :
    Gap (unifyBreaks s) (c :: unifyBreaks t) := by
  rw [← Json.unify_cons hc]
  exact h.unify

theorem SignAt.unify (hc : Unbroken [c]) (h : SignAt c s t) : SignAt c (unifyBreaks s) (unifyBreaks t) := by
  obtain ⟨u, hu, ht⟩ := h
  exact ⟨_, hu.unify_cons hc, ht.unify⟩

theorem CodeAt.unify (h : CodeAt n s t) : CodeAt n (unifyBreaks s) (unifyBreaks t) := by
  obtain ⟨ds, hlength, hcode, rfl⟩ := h
  exact ⟨ds, hlength, hcode, unifyBreaks_append (unbroken_code hlength hcode).1 t⟩

theorem exists_codeAt_of_unify (h : CodeAt n (unifyBreaks s) t') :
    ∃ t, unifyBreaks t = t' ∧ CodeAt n s t := by
  obtain ⟨ds, hlength, hcode, hs⟩ := h
  obtain ⟨t, ht, hrest⟩ := exists_of_unifyBreaks_eq_append (unbroken_code hlength hcode).2 hs
  exact ⟨t, hrest, ds, hlength, hcode, ht⟩

theorem unbroken_plain (h : 0x1f < c.toNat) : Unbroken [c] := by
  refine unbroken_of_forall fun d hd => ?_
  obtain rfl := List.mem_singleton.mp hd
  constructor <;> (rintro rfl; exact absurd h (by decide))

theorem unbroken_short {e : Char} (h : shortEscape? e = some c) : Unbroken ['\\', e] := by
  refine unbroken_of_forall fun d hd => ?_
  obtain rfl | rfl : d = '\\' ∨ d = e := by simpa using hd
  · decide
  · constructor <;> (rintro rfl; cases h)

theorem Quoted.unify {cs : List Char} (h : Quoted s cs t) :
    Quoted (unifyBreaks s) cs (unifyBreaks t) := by
  induction h with
  | close =>
    rw [unify_cons (by decide)]
    exact .close
  | plain hquote hescape hcontrol _ ih =>
    rw [unify_cons (unbroken_plain hcontrol)]
    exact .plain hquote hescape hcontrol ih
  | @short e c s cs t he _ ih =>
    have hunify : unifyBreaks ('\\' :: e :: s) = '\\' :: e :: unifyBreaks s :=
      unifyBreaks_append (unbroken_short he).1 s
    rw [hunify]
    exact .short he ih
  | code hn hlone _ ih =>
    refine .code hn.unify (fun hhigh m u hm => ?_) ih
    obtain ⟨v, -, hm⟩ := exists_codeAt_of_unify hm
    exact hlone hhigh m v hm
  | pair hn hhigh hm hlow _ ih => exact .pair hn.unify hhigh hm.unify hlow ih

theorem KeyAt.unify {key : String} (h : KeyAt key s t) :
    KeyAt key (unifyBreaks s) (unifyBreaks t) := by
  obtain ⟨s', cs, u, rfl, hquoted, hkey, hcolon⟩ := h
  exact ⟨_, cs, _, unify_cons (by decide) s', hquoted.unify, hkey, hcolon.unify (by decide)⟩

theorem Denotes.unify {part : Part} (h : Denotes s part t) :
    Denotes (unifyBreaks s) part (unifyBreaks t) := by
  induction h with
  | word h =>
    rw [unifyBreaks_append (unbroken_word h).1]
    exact .word h
  | number hn =>
    rw [unifyBreaks_append hn.unbroken.1]
    exact .number hn
  | string hquoted =>
    rw [unify_cons (by decide)]
    exact .string hquoted.unify
  | emptyArray hend =>
    rw [unify_cons (by decide)]
    exact .emptyArray (hend.unify_cons (by decide))
  | array hgap _ ih =>
    rw [unify_cons (by decide)]
    exact .array hgap.unify ih
  | emptyObject hend =>
    rw [unify_cons (by decide)]
    exact .emptyObject (hend.unify_cons (by decide))
  | object hgap _ ih =>
    rw [unify_cons (by decide)]
    exact .object hgap.unify ih
  | lastItem _ hend ih => exact .lastItem ih (hend.unify_cons (by decide))
  | item _ hcomma _ ih ihrest => exact .item ih (hcomma.unify (by decide)) ihrest
  | lastMember hkey _ hend ih => exact .lastMember hkey.unify ih (hend.unify_cons (by decide))
  | member hkey _ hcomma _ ih ihrest =>
    exact .member hkey.unify ih (hcomma.unify (by decide)) ihrest

theorem unbroken_of_isDigit (h : c.isDigit = true) : Unbroken [c] :=
  unbroken_of_forall fun d hd => by
    rw [List.mem_singleton.mp hd]
    exact ne_break_of_isDigit h

theorem noDigit_unify_iff : NoDigit (unifyBreaks t) ↔ NoDigit t := by
  constructor
  · intro h c hc
    obtain ⟨u, rfl⟩ := List.head?_eq_some_iff.mp hc
    by_contra hdigit
    rw [Bool.not_eq_false] at hdigit
    rw [unify_cons (unbroken_of_isDigit hdigit)] at h
    exact absurd (h c rfl) (by simp [hdigit])
  · intro h c hc
    obtain ⟨u', hu⟩ := List.head?_eq_some_iff.mp hc
    obtain ⟨u, -, rfl | ⟨rfl, -⟩⟩ := exists_of_unifyBreaks_eq_cons hu
    · exact h c rfl
    · rfl

theorem stops_unify_iff : Stops (unifyBreaks t) ↔ Stops t := by
  constructor
  · intro h
    refine ⟨noDigit_unify_iff.mp h.digit, ?_, ?_⟩
    · rintro c u rfl
      rw [unify_cons (by decide)] at h
      have hnodigit : NoDigit (unifyBreaks (c :: u)) := by
        intro d hd
        obtain ⟨v, hv⟩ := List.head?_eq_some_iff.mp hd
        exact h.fraction d v (by rw [hv])
      exact noDigit_unify_iff.mp hnodigit c rfl
    · rintro x hx u rfl
      exact h.exponent x hx (unifyBreaks u) (unifyBreaks_append hx.unbroken.1 u)
  · intro h
    refine ⟨noDigit_unify_iff.mpr h.digit, ?_, ?_⟩
    · -- a line break behind the point is no digit, whichever it is
      intro c u' hu
      obtain ⟨v, rfl, hv⟩ := exists_of_unify_eq_cons (by decide) hu
      obtain ⟨u, -, rfl | ⟨rfl, -⟩⟩ := exists_of_unifyBreaks_eq_cons hv
      · exact h.fraction c u rfl
      · rfl
    · intro x hx u' hu
      obtain ⟨u, rfl, -⟩ := exists_of_unifyBreaks_eq_append hx.unbroken.2 hu
      exact h.exponent x hx u rfl

theorem Overlong.unify {place : Place} (h : Overlong place s) : Overlong place (unifyBreaks s) := by
  induction h with
  | number hn hlong hstops =>
    rw [unifyBreaks_append hn.unbroken.1]
    exact .number hn hlong (stops_unify_iff.mpr hstops)
  | array hgap _ ih =>
    rw [unify_cons (by decide)]
    exact .array hgap.unify ih
  | object hgap _ ih =>
    rw [unify_cons (by decide)]
    exact .object hgap.unify ih
  | firstItem _ ih => exact .firstItem ih
  | laterItem hv hcomma _ ih => exact .laterItem hv.unify (hcomma.unify (by decide)) ih
  | firstMember hkey _ ih => exact .firstMember hkey.unify ih
  | laterMember hkey hv hcomma _ ih =>
    exact .laterMember hkey.unify hv.unify (hcomma.unify (by decide)) ih

end BlockMarkup.Json
