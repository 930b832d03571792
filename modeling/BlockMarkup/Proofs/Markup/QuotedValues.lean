import BlockMarkup.Markup.RootScan
import BlockMarkup.Proofs.Regex.Matches
import BlockMarkup.Proofs.Markup.StartTag

/-! # Quoted values before the scan

Before the tags of a text are scanned, quoted values are blanked. They are read as if a backslash
escaped the character behind it, which it does not in markup, so a value may be read beyond its end:
one with a single backslash at its end, and one in which reading gets stuck, so that the sign of
another value is looked for in it. `staysInside` says that neither happens. Then the value is blanked,
or it stays as it is where reading gets stuck (`blanks_value`).
-/

namespace BlockMarkup.Markup

open BlockMarkup.Regex (CharSet Cursor Eats Refuses Respells Rounds Silent Yields)
open BlockMarkup.Regex.Cursor (spot)
open Token (eats_char eats_blanks_nil)

/-- What is left of a value when it is read with escapes: nothing, or what begins with a backslash that
has nothing or a line feed behind it. -/
def unread : List Char → List Char
  | [] => []
  | '\\' :: [] => ['\\']
  | '\\' :: c :: rest => if c = '\n' then '\\' :: c :: rest else unread rest
  | _ :: rest => unread rest

/-- Whether there is a sign in the value that, blanks apart, the end of the value or a single quote
follows: such a sign is taken for that of a value. -/
def opensValue : List Char → Bool
  | [] => false
  | c :: rest =>
    c == '=' && (rest.dropWhile Text.isBlank).head?.all (· == '\'') || opensValue rest

/-- Whether the value is not read beyond its end: it is read as a whole, or reading gets stuck in it
and begins nowhere else in it. -/
def staysInside (v : List Char) : Bool :=
  unread v == [] || unread v != ['\\'] && !opensValue v

/-- What the scan leaves of a value. -/
def blanked (v : List Char) : List Char := if unread v = [] then [] else v

/-- Wherever the characters stand, others stand there when values are blanked. -/
def Blanks (cs out : List Char) : Prop :=
  Respells Pattern.quotedValue (fun _ => "=\"\"".toList) cs out

/-- A value in double quotes, with its sign. -/
def signedValue (v : List Char) : List Char := '=' :: '"' :: (v ++ ['"'])

variable {v before rest : List Char} {groups : List (Nat × Regex.Capture)}

theorem unread_cons {c : Char} (hc : c ≠ '\\') : unread (c :: v) = unread v :=
  unread.eq_4 c v (fun h _ => hc h) fun _ _ h _ => hc h

/-! ## Values that are read -/

/-- One character inside of a value, or two that begin with a backslash. -/
def valueStep : Regex :=
  (Pattern.char '\\' ++ .one (CharSet.single '\n').not).alt
    (.one (CharSet.ofList ['"', '\\']).not)

theorem valueSet_iff {c : Char} :
    (CharSet.ofList ['"', '\\']).not.contains c = true ↔ c ≠ '"' ∧ c ≠ '\\' := by
  rw [CharSet.contains_not, CharSet.contains_ofList]
  simp

/-- A value is read up to what is left of it, and then it depends on what stands there. -/
theorem rounds_read {s : Cursor} (hq : '"' ∉ v)
    (h : ∀ p, v = p ++ unread v → Rounds (Regex.run valueStep)
      (spot (p.reverse ++ before) (unread v ++ rest) groups) s) :
    Rounds (Regex.run valueStep) (spot before (v ++ rest) groups) s := by
  induction v using unread.induct generalizing before with
  | case1 => exact h [] rfl
  | case2 => exact h [] rfl
  | case3 w =>
    have hstuck := h [] (by rw [unread, if_pos rfl]; rfl)
    rwa [unread, if_pos rfl] at hstuck
  | case4 c w hc ih =>
    rw [unread, if_neg hc] at h
    rw [List.mem_cons, List.mem_cons, not_or, not_or] at hq
    -- a backslash takes the character behind it along
    have hpair : Eats valueStep (['\\'] ++ [c]) before (w ++ rest) groups groups :=
      Eats.alt_left (eats_char.seq (Regex.eats_one (by
        rw [CharSet.contains_not, CharSet.contains_single]
        simpa using hc)))
    refine hpair.round (by simp) (ih hq.2.2 fun p hp => ?_)
    have hmore := h ('\\' :: c :: p) (by rw [List.cons_append, List.cons_append, ← hp])
    simpa using hmore
  | case5 c w hlast hpair ih =>
    have hc : c ≠ '\\' := by
      rintro rfl
      cases w with
      | nil => exact hlast rfl rfl
      | cons d w => exact hpair d w rfl rfl
    rw [unread_cons hc] at h
    rw [List.mem_cons, not_or] at hq
    have hone : Eats valueStep [c] before (w ++ rest) groups groups := by
      refine Eats.alt_right (Refuses.seq (refuses_char fun d hd => ?_))
        (Regex.eats_one (valueSet_iff.mpr ⟨fun h => hq.1 h.symm, hc⟩))
      cases hd
      exact hc
    refine hone.round (by simp) (ih hq.2 fun p hp => ?_)
    have hmore := h (c :: p) (by rw [List.cons_append, ← hp])
    simpa using hmore

/-- Reading ends at a quote. -/
theorem refuses_valueStep : Refuses (Regex.run valueStep) (spot before ('"' :: rest) groups) := by
  refine Refuses.alt (Refuses.seq (refuses_char fun c hc => ?_)) (Regex.refuses_one fun c hc => ?_)
  · cases hc
    decide
  · cases hc
    decide

theorem rounds_value (hv : unread v = []) (hq : '"' ∉ v) :
    Rounds (Regex.run valueStep) (spot before (v ++ '"' :: rest) groups)
      (spot (v.reverse ++ before) ('"' :: rest) groups) := by
  refine rounds_read hq fun p hp => ?_
  rw [hv, List.append_nil] at hp
  rw [hv, hp]
  exact .done refuses_valueStep

/-- A value with a single backslash at its end is read on into what stands behind it. -/
theorem rounds_openValue {w : List Char} (hv : unread v = ['\\']) (hq : '"' ∉ v)
    (hw : unread w = []) (hqw : '"' ∉ w) :
    Rounds (Regex.run valueStep) (spot before (v ++ '"' :: (w ++ '"' :: rest)) groups)
      (spot ((v ++ '"' :: w).reverse ++ before) ('"' :: rest) groups) := by
  refine rounds_read hq fun p hp => ?_
  rw [hv] at hp ⊢
  have hpair : Eats valueStep (['\\'] ++ ['"']) (p.reverse ++ before) (w ++ '"' :: rest) groups
      groups :=
    Eats.alt_left (eats_char.seq (Regex.eats_one (by decide)))
  have hbehind : Rounds (Regex.run valueStep)
      (spot ((['\\'] ++ ['"']).reverse ++ (p.reverse ++ before)) (w ++ '"' :: rest) groups)
      (spot (w.reverse ++ ((['\\'] ++ ['"']).reverse ++ (p.reverse ++ before))) ('"' :: rest)
        groups) :=
    rounds_value hw hqw
  rw [hp]
  simpa using hpair.round (by simp) hbehind

/-- Where reading goes up to a quote, all before it is one value. -/
theorem eats_signedValue (h : ∀ before, Rounds (Regex.run valueStep)
      (spot before (v ++ '"' :: rest) groups) (spot (v.reverse ++ before) ('"' :: rest) groups)) :
    Eats Pattern.quotedValue (signedValue v) before rest groups groups := by
  have hinside : Eats (Pattern.escapedUpTo '"') v (['"'].reverse ++ (['='].reverse ++ before))
      (['"'] ++ rest) groups groups :=
    (h _).eats_loop
  have hvalue : Eats Pattern.quotedValue ((['='] ++ []) ++ ((['"'] ++ v) ++ ['"'])) before rest groups
      groups :=
    (eats_char.seq_nil (eats_blanks_nil fun c hc => by cases hc; rfl)).seq
      (Eats.alt_left ((eats_char.seq hinside).seq eats_char))
  simpa only [signedValue, List.append_nil, List.cons_append, List.nil_append] using hvalue

/-! ## Values in which reading gets stuck -/

/-- The rest of a value in which reading gets stuck before the closing quote. -/
def StuckIn (rest after : List Char) : Prop :=
  ∃ w, after = w ++ '"' :: rest ∧ '"' ∉ w ∧ unread w ≠ [] ∧ unread w ≠ ['\\']

/-- However reading goes on, it stays stuck. -/
theorem yields_valueStep : Yields (Regex.run valueStep) fun s u =>
    StuckIn rest s.after → StuckIn rest u.after := by
  refine Yields.alt ?_ ?_
  · refine ((Token.yields_char '\\').seq (Regex.yields_one _)).weaken ?_
    rintro s u ⟨v, hslash, c, hc, hchar, -⟩ ⟨w, hafter, hq, hunread, hopen⟩
    rw [hslash, hchar] at hafter
    rw [CharSet.contains_not, CharSet.contains_single] at hc
    match w with
    | [] => cases hafter
    | [d] =>
      cases hafter
      exact absurd rfl hopen
    | d :: e :: w =>
      simp only [List.cons_append, List.cons.injEq] at hafter
      obtain ⟨rfl, rfl, hafter⟩ := hafter
      have hne : c ≠ '\n' := by simpa using hc
      rw [unread, if_neg hne] at hunread hopen
      rw [List.mem_cons, List.mem_cons, not_or, not_or] at hq
      exact ⟨w, hafter, hq.2.2, hunread, hopen⟩
  · refine (Regex.yields_one _).weaken ?_
    rintro s u ⟨c, hc, hchar, -⟩ ⟨w, hafter, hq, hunread, hopen⟩
    rw [hchar] at hafter
    rw [valueSet_iff] at hc
    cases w with
    | nil =>
      cases hafter
      exact absurd rfl hc.1
    | cons d w =>
      simp only [List.cons_append, List.cons.injEq] at hafter
      obtain ⟨rfl, hafter⟩ := hafter
      rw [unread_cons hc.2] at hunread hopen
      rw [List.mem_cons, not_or] at hq
      exact ⟨w, hafter, hq.2, hunread, hopen⟩

theorem refuses_stuck {s : Cursor} (h : StuckIn rest s.after) :
    Refuses (Regex.run (.seq (Pattern.escapedUpTo '"') (Pattern.char '"'))) s := by
  have hloop : Yields (Regex.run (Pattern.escapedUpTo '"')) fun s u =>
      StuckIn rest s.after → StuckIn rest u.after :=
    Yields.loop (R := fun s u => StuckIn rest s.after → StuckIn rest u.after) (fun _ h => h)
      (fun hu hv h => hv (hu h)) yields_valueStep
  refine Regex.refuses_seq_of_yields hloop fun u hu => refuses_char ?_
  obtain ⟨w, hafter, hq, hunread, -⟩ := hu h
  rintro d hd rfl
  cases w with
  | nil => exact hunread rfl
  | cons c w =>
    rw [hafter] at hd
    cases hd
    exact hq List.mem_cons_self

/-- The pattern refuses where no sign stands. -/
theorem refuses_quotedValue {s : Cursor} (h : s.after.head? ≠ some '=') :
    Refuses (Regex.run Pattern.quotedValue) s :=
  Refuses.seq (Refuses.seq (refuses_char fun c hc => by
    rintro rfl
    exact h hc))

theorem silent_quotedValue {cs : List Char} (h : '=' ∉ cs) :
    Silent Pattern.quotedValue before cs rest := by
  intro p c q hcs
  refine refuses_quotedValue (fun hc => ?_) some
  cases hc
  rw [hcs] at h
  exact h (by simp)

theorem Blanks.append {cs cs' out out' : List Char} (h : Blanks cs out) (h' : Blanks cs' out') :
    Blanks (cs ++ cs') (out ++ out') :=
  Regex.Adds.append h h'

theorem blanks_self {cs : List Char} (h : '=' ∉ cs) : Blanks cs cs :=
  Regex.respells_self fun _ _ => silent_quotedValue h

theorem Blanks.replaceAll {cs out : List Char} (h : Blanks cs out) :
    Pattern.quotedValue.replaceAll (fun _ => "=\"\"".toList) cs = out :=
  Respells.replaceAll h fun _ => refuses_quotedValue (by simp [spot]) some

/-- What is matched behind a sign and blanks. -/
def quotedText : Regex :=
  (Pattern.char '"' ++ Pattern.escapedUpTo '"' ++ Pattern.char '"').alt
    (Pattern.char '\'' ++ Pattern.escapedUpTo '\'' ++ Pattern.char '\'')

theorem refuses_quotedText {s : Cursor} (h : ∀ c, s.after.head? = some c → c ≠ '"' ∧ c ≠ '\'') :
    Refuses (Regex.run quotedText) s :=
  Refuses.alt (Refuses.seq (Refuses.seq (refuses_char fun c hc => (h c hc).1)))
    (Refuses.seq (Refuses.seq (refuses_char fun c hc => (h c hc).2)))

/-- The pattern refuses at a sign if no quoted text begins behind the blanks that follow. -/
theorem refuses_sign {s : Cursor} {after : List Char} (hafter : s.after = '=' :: after)
    (h : ∀ u : Cursor, u.after = after.dropWhile Text.isBlank → Refuses (Regex.run quotedText) u) :
    Refuses (Regex.run Pattern.quotedValue) s := by
  refine Regex.refuses_seq_of_yields ((Token.yields_char '=').seq Token.yields_blanks) ?_
  rintro u ⟨v, hv, bl, hbl, hblanks⟩
  rw [hafter] at hv
  cases hv
  by_cases hhead : ∃ c, u.after.head? = some c ∧ Text.isBlank c = true
  · -- the blanks go on, so no quote stands here
    obtain ⟨c, hc, hblank⟩ := hhead
    refine refuses_quotedText fun d hd => ?_
    rw [hc] at hd
    cases hd
    constructor
    · rintro rfl
      cases hblank
    · rintro rfl
      cases hblank
  · refine h u ?_
    rw [hblanks, List.dropWhile_append_of_pos hbl]
    cases hu : u.after with
    | nil => rfl
    | cons c w =>
      have hc : ¬ Text.isBlank c = true := fun hblank => hhead ⟨c, by rw [hu]; rfl, hblank⟩
      rw [List.dropWhile_cons_of_neg hc]

/-- No value is looked for in the value. -/
theorem silent_value (hq : '"' ∉ v) (hopens : opensValue v = false) :
    Silent Pattern.quotedValue before v ('"' :: rest) := by
  induction v generalizing before with
  | nil => exact Regex.silent_nil
  | cons c v ih =>
    rw [opensValue, Bool.or_eq_false_iff] at hopens
    rw [List.mem_cons, not_or] at hq
    refine .cons ?_ (ih hq.2 hopens.2)
    by_cases hc : c = '='
    · subst hc
      refine refuses_sign rfl (fun u hu => refuses_quotedText fun d hd => ?_) some
      cases hfirst : (v.dropWhile Text.isBlank).head? with
      | none => simp [hfirst] at hopens
      | some e =>
        have hmem : e ∈ v :=
          List.dropWhile_subset _ (List.mem_of_mem_head? (Option.mem_def.mpr hfirst))
        have hsingle : e ≠ '\'' := by simpa [hfirst] using hopens.1
        rw [hu, Token.head?_dropWhile_append, hfirst] at hd
        cases hd
        refine ⟨?_, hsingle⟩
        rintro rfl
        exact hq.2 hmem
    · refine refuses_quotedValue (fun h => ?_) some
      cases h
      exact hc rfl

/-- Where reading gets stuck in a value and begins nowhere else in it, nothing is matched. -/
theorem silent_signedValue (hq : '"' ∉ v) (hunread : unread v ≠ []) (hopen : unread v ≠ ['\\'])
    (hopens : opensValue v = false) : Silent Pattern.quotedValue before (signedValue v) rest := by
  have hsign : Refuses (Regex.run Pattern.quotedValue)
      (spot before ('=' :: ('"' :: (v ++ ['"']) ++ rest)) []) := by
    refine refuses_sign rfl fun u hu => ?_
    have hquote : u.after = '"' :: (v ++ '"' :: rest) :=
      hu.trans (congrArg ('"' :: ·) (List.append_assoc ..))
    have hdouble : Refuses (Regex.run (.seq (Pattern.char '"')
        (.seq (Pattern.escapedUpTo '"') (Pattern.char '"')))) u := by
      refine Regex.refuses_seq_of_yields (Token.yields_char '"') fun w hw => ?_
      rw [hquote] at hw
      have hstuck : StuckIn rest w.after :=
        ⟨v, (List.cons.inj hw).2.symm, hq, hunread, hopen⟩
      exact refuses_stuck hstuck
    refine Refuses.alt hdouble (Refuses.seq (Refuses.seq (refuses_char fun c hc => ?_)))
    rw [hquote] at hc
    cases hc
    decide
  have hlast : Silent Pattern.quotedValue (v.reverse ++ '"' :: '=' :: before) ['"'] rest :=
    silent_quotedValue (by decide)
  have hinside : Silent Pattern.quotedValue ('"' :: '=' :: before) (v ++ ['"']) rest :=
    (silent_value hq hopens).append hlast
  exact .cons (hsign some) (.cons (refuses_quotedValue (by simp [spot]) some) hinside)

/-- A value with a single backslash at its end is blanked together with what stands behind it, up to
the next quote. -/
theorem blanks_openValue {w : List Char} (hv : unread v = ['\\']) (hq : '"' ∉ v)
    (hw : unread w = []) (hqw : '"' ∉ w) :
    Blanks (signedValue (v ++ '"' :: w)) (signedValue []) :=
  Regex.respells_eaten (by simp [signedValue]) fun _ _ => eats_signedValue fun before => by
    rw [List.append_assoc]
    exact rounds_openValue hv hq hw hqw

/-- A value that is not read beyond its end is blanked or stays, whatever stands around it. -/
theorem blanks_value (hq : '"' ∉ v) (h : staysInside v = true) :
    Blanks (signedValue v) (signedValue (blanked v)) := by
  simp only [staysInside, Bool.or_eq_true, Bool.and_eq_true, beq_iff_eq, bne_iff_ne, ne_eq,
    Bool.not_eq_true'] at h
  rw [blanked]
  split
  · rename_i hread
    exact Regex.respells_eaten (by simp [signedValue]) fun _ _ =>
      eats_signedValue fun _ => rounds_value hread hq
  · rename_i hunread
    obtain ⟨hopen, hopens⟩ := h.resolve_left hunread
    exact Regex.respells_self fun _ _ => silent_signedValue hq hunread hopen hopens

end BlockMarkup.Markup
