import BlockMarkup.Proofs.Markup.SanitizedClass
import BlockMarkup.Proofs.Regex.Prefix
import BlockMarkup.Proofs.Regex.Recast

/-! # Interpolations in a class value

A template literal is a list of words and of holes that expressions fill, one blank apart. This module
follows such a value, as the class attribute of an element, through the patterns for template syntax up
to the one for interpolations. Those for what stands in braces take whole parts from one hole to another
and leave the sign of the first (`exists_removeEach_take`); those for words thin out the words behind the
first part, and leave all holes (`exists_removeEach_words`).
-/

namespace BlockMarkup.Markup

open BlockMarkup.Regex (CharSet Cursor Eats Recast Refuses Rewrites Silent Yields)
open BlockMarkup.Regex.Cursor (spot)
open ClassSpelling
open Token (yields_char)

variable {r : Regex} {before rest t w e x z : List Char}

/-! ## Parts -/

/-- A part of a template literal: a word, or a hole with the expression that fills it. -/
inductive TemplatePart where
  | word (w : List Char)
  | hole (e : List Char)
deriving DecidableEq, Repr

namespace TemplatePart

variable {p : TemplatePart} {ps qs : List TemplatePart}

/-- A part as it is written. -/
def text : TemplatePart → List Char
  | word w => w
  | hole e => '$' :: '\x7b' :: (e ++ ['\x7d'])

/-- The words of a template literal, without what fills its holes. -/
def words : List TemplatePart → List (List Char)
  | [] => []
  | word w :: ps => w :: words ps
  | hole _ :: ps => words ps

/-- How many holes a template literal has. -/
def holes : List TemplatePart → Nat
  | [] => 0
  | word _ :: ps => holes ps
  | hole _ :: ps => holes ps + 1

/-- Parts, each behind a blank. -/
def lining (ps : List TemplatePart) : List Char := lined (ps.map text)

/-- The value that a template literal is written with. -/
def value (ps : List TemplatePart) : List Char := [' '].intercalate (ps.map text)

theorem value_cons (p : TemplatePart) (ps : List TemplatePart) :
    value (p :: ps) = p.text ++ lining ps := intercalate_cons _ _

theorem lining_cons (p : TemplatePart) (ps : List TemplatePart) :
    lining (p :: ps) = ' ' :: (p.text ++ lining ps) := rfl

theorem lining_eq (h : ps ≠ []) : lining ps = ' ' :: value ps := by
  obtain ⟨p, ps, rfl⟩ := List.exists_cons_of_ne_nil h
  rw [lining_cons, value_cons]

theorem lining_word : lining (word w :: ps) = ' ' :: (w ++ lining ps) := rfl

theorem lining_hole_append :
    lining (hole e :: ps) ++ t = ' ' :: '$' :: '\x7b' :: (e ++ '\x7d' :: (lining ps ++ t)) := by
  simp [lining_cons, text]

theorem value_hole_append :
    value (hole e :: ps) ++ t = '$' :: '\x7b' :: (e ++ '\x7d' :: (lining ps ++ t)) := by
  simp [value_cons, text]

/-- A part while template syntax is removed: a token or a sign that is left of a hole, or a hole with
neither braces nor signs that end a value or a tag. -/
def IsSound : TemplatePart → Prop
  | word w => w = ['$'] ∨ IsToken w
  | hole e => IsInner e ∧ '\x7b' ∉ e ∧ '\x7d' ∉ e

theorem isSound_dollar : (word ['$']).IsSound := Or.inl rfl

theorem IsSound.isTagWord (h : (word w).IsSound) : IsTagWord w := by
  rcases h with rfl | h
  · exact ⟨List.cons_ne_nil _ _, List.forall_mem_singleton.mpr rfl, by decide, by decide⟩
  · exact h.isTagWord

theorem IsSound.not_mem_word (h : (word w).IsSound) {d : Char} (hd : isTokenChar d = false)
    (hdollar : d ≠ '$') : d ∉ w := by
  rcases h with rfl | h
  · simpa using hdollar
  · exact h.not_mem hd

/-! ## Patterns for what stands in braces -/

/-- A pattern for what stands in braces: a match begins with an opening brace and ends with a closing
one. -/
structure TakesBraces (r : Regex) : Prop where
  begins : BeginsWith '\x7b' r
  ends : Yields (Regex.run r) fun s u => ∃ cs, s.after = cs ++ '\x7d' :: u.after

/-- A sign that is not in the first part of a text is in the second one. -/
theorem exists_of_append_cons_eq {d : Char} {y y' : List Char} (h : x ++ d :: z = y ++ y')
    (hd : d ∉ y) : ∃ x', x = y ++ x' ∧ y' = x' ++ d :: z := by
  rcases List.append_eq_append_iff.mp h with ⟨a, hy, hz⟩ | ⟨a, hx, hy'⟩
  · cases a with
    | nil => exact ⟨[], by rw [hy, List.append_nil, List.append_nil], hz.symm⟩
    | cons c a =>
      obtain ⟨rfl, -⟩ := List.cons.inj hz
      exact absurd (by simp [hy]) hd
  · exact ⟨a, hx, hy'⟩

/-- A sign that no word has stands in a hole. -/
theorem exists_hole_of_sign {d : Char} (hps : ∀ p ∈ ps, p.IsSound) (hd : isTokenChar d = false)
    (hout : d ∉ [' ', '$']) (ht : d ∉ t) (h : x ++ d :: z = lining ps ++ t) :
    ∃ e qs y y', hole e :: qs <:+ ps ∧ y ++ d :: y' = '\x7b' :: (e ++ ['\x7d']) ∧
      z = y' ++ (lining qs ++ t) := by
  induction ps generalizing x with
  | nil =>
    have hmem : d ∈ x ++ d :: z := by simp
    rw [h] at hmem
    exact absurd hmem ht
  | cons p ps ih =>
    rw [List.forall_mem_cons] at hps
    have hlater : ∀ x, x ++ d :: z = lining ps ++ t → ∃ e qs y y', hole e :: qs <:+ p :: ps ∧
        y ++ d :: y' = '\x7b' :: (e ++ ['\x7d']) ∧ z = y' ++ (lining qs ++ t) := by
      intro x hx
      obtain ⟨e, qs, y, y', hsuffix, hhole, hz⟩ := ih hps.2 hx
      exact ⟨e, qs, y, y', hsuffix.trans (List.suffix_cons _ _), hhole, hz⟩
    cases p with
    | word w =>
      have hword : d ∉ ' ' :: w := by
        have hw := hps.1.not_mem_word hd (fun heq => hout (by simp [heq]))
        have hblank : d ≠ ' ' := fun heq => hout (by simp [heq])
        simp [hw, hblank]
      rw [lining_word, List.cons_append, List.append_assoc, ← List.cons_append] at h
      obtain ⟨x', -, hx⟩ := exists_of_append_cons_eq h hword
      exact hlater x' hx.symm
    | hole e =>
      rw [lining_hole_append] at h
      obtain ⟨x', -, hx⟩ := exists_of_append_cons_eq (y := [' ', '$']) h hout
      have hsplit : x' ++ d :: z = '\x7b' :: (e ++ ['\x7d']) ++ (lining ps ++ t) := by
        rw [← hx]
        simp
      -- the sign stands in this hole or in a part behind it
      rcases List.append_eq_append_iff.mp hsplit with ⟨a, hhole, hz⟩ | ⟨a, rfl, hrest⟩
      · cases a with
        | nil => exact hlater [] hz
        | cons c a =>
          obtain ⟨rfl, rfl⟩ := List.cons.inj hz
          exact ⟨e, ps, x', a, List.suffix_refl _, hhole.symm, rfl⟩
      · exact hlater a hrest.symm

theorem holes_le_of_suffix (h : qs <:+ ps) : holes qs ≤ holes ps := by
  induction ps with
  | nil => rw [List.suffix_nil.mp h]
  | cons p ps ih =>
    rcases List.suffix_cons_iff.mp h with rfl | h
    · exact Nat.le_refl _
    · have hle := ih h
      cases p with
      | word w => exact hle
      | hole e => exact Nat.le_succ_of_le hle

/-- Behind a closing brace stand whole parts. -/
theorem exists_lining_of_brace (hps : ∀ p ∈ ps, p.IsSound) (ht : '\x7d' ∉ t)
    (h : x ++ '\x7d' :: z = lining ps ++ t) :
    ∃ qs, qs <:+ ps ∧ holes qs < holes ps ∧ z = lining qs ++ t := by
  obtain ⟨e, qs, y, y', hsuffix, hhole, rfl⟩ :=
    exists_hole_of_sign hps (by decide) (by decide) ht h
  have he : '\x7d' ∉ '\x7b' :: e := by simp [(hps _ (hsuffix.subset List.mem_cons_self)).2.2]
  obtain ⟨x', -, hx⟩ := exists_of_append_cons_eq (y := '\x7b' :: e) hhole he
  have hnil : y' = [] := by
    cases x' with
    | nil => exact (List.cons.inj hx).2.symm
    | cons c x' => simp at hx
  subst hnil
  exact ⟨qs, (List.suffix_cons _ _).trans hsuffix, holes_le_of_suffix hsuffix, rfl⟩

/-- Parts as a pattern for braces leaves them: either they stay, or a sign is left of a hole. -/
structure Taken (ps qs : List TemplatePart) : Prop where
  sound : ∀ q ∈ qs, q.IsSound
  parts : qs = ps ∨ ['$'] ∈ words qs ∧ holes qs < holes ps

theorem Taken.refl (hps : ∀ p ∈ ps, p.IsSound) : Taken ps ps := ⟨hps, Or.inl rfl⟩

theorem Taken.cons (h : Taken ps qs) (hp : p.IsSound) : Taken (p :: ps) (p :: qs) := by
  refine ⟨List.forall_mem_cons.mpr ⟨hp, h.sound⟩, ?_⟩
  rcases h.parts with rfl | ⟨hmem, hless⟩
  · exact Or.inl rfl
  · cases p with
    | word w => exact Or.inr ⟨List.mem_cons_of_mem _ hmem, hless⟩
    | hole e => exact Or.inr ⟨hmem, Nat.succ_lt_succ hless⟩

theorem Taken.holes_le (h : Taken ps qs) : holes qs ≤ holes ps := by
  rcases h.parts with rfl | ⟨-, hless⟩
  · exact Nat.le_refl _
  · exact Nat.le_of_lt hless

theorem Taken.trans {us : List TemplatePart} (h : Taken ps qs) (h' : Taken qs us) : Taken ps us := by
  refine ⟨h'.sound, ?_⟩
  rcases h'.parts with rfl | ⟨hmem, hless⟩
  · exact h.parts
  · exact Or.inr ⟨hmem, Nat.lt_of_lt_of_le hless h.holes_le⟩

theorem Taken.ne_nil (h : Taken ps qs) (hps : ps ≠ []) : qs ≠ [] := by
  rintro rfl
  rcases h.parts with rfl | ⟨hmem, -⟩
  · exact hps rfl
  · cases hmem

/-- A match that begins in a hole ends behind a part. -/
theorem TakesBraces.exists_match (hr : TakesBraces r) (hps : ∀ p ∈ hole e :: ps, p.IsSound)
    (ht : '\x7d' ∉ t) {u : Cursor}
    (hrun : Regex.run r (spot before ('\x7b' :: (e ++ '\x7d' :: (lining ps ++ t))) []) some = some u) :
    ∃ cs qs, cs ≠ [] ∧ '\x7b' :: (e ++ '\x7d' :: (lining ps ++ t)) = cs ++ (lining qs ++ t) ∧
      qs <:+ ps ∧ holes qs ≤ holes ps ∧
      u = spot (cs.reverse ++ before) (lining qs ++ t) u.groups := by
  rw [List.forall_mem_cons] at hps
  obtain ⟨v, ⟨cs, hafter⟩, hv⟩ := hr.ends _ _ _ hrun
  cases hv
  have hopen : '\x7d' ∉ '\x7b' :: e := by simp [hps.1.2.2]
  obtain ⟨x, -, hx⟩ := exists_of_append_cons_eq (y := '\x7b' :: e) hafter.symm hopen
  obtain ⟨qs, hqs, hle, hrest⟩ : ∃ qs, qs <:+ ps ∧ holes qs ≤ holes ps ∧ u.after = lining qs ++ t := by
    cases x with
    | nil => exact ⟨ps, List.suffix_refl _, Nat.le_refl _, (List.cons.inj hx).2.symm⟩
    | cons c x =>
      obtain ⟨qs, hqs, hless, hz⟩ := exists_lining_of_brace hps.2 ht (List.cons.inj hx).2.symm
      exact ⟨qs, hqs, Nat.le_of_lt hless, hz⟩
  obtain ⟨cs', rest, hsplit, -, hu⟩ := Regex.exists_of_run hrun
  obtain rfl : rest = lining qs ++ t := by
    rw [← hrest, hu]
    rfl
  refine ⟨cs', qs, ?_, hsplit, hqs, hle, hu⟩
  rintro rfl
  -- the match has at least its closing brace
  rw [spot, hsplit, hrest, List.nil_append] at hafter
  have hlength := congrArg List.length hafter
  simp at hlength
  omega

/-- What a pattern for braces makes of a hole, given what it makes of the parts behind. -/
theorem TakesBraces.exists_hole (hr : TakesBraces r) (hps : ∀ p ∈ hole e :: ps, p.IsSound)
    (ht : '\x7d' ∉ t)
    (hlining : ∀ qs, qs <:+ ps → ∀ before, ∃ us, Taken qs us ∧
      Rewrites r (fun _ => []) before (lining qs ++ t) (lining us ++ t)) (before : List Char) :
    ∃ us, Taken (hole e :: ps) us ∧
      Rewrites r (fun _ => []) before (value (hole e :: ps) ++ t) (value us ++ t) := by
  have hsign : Silent r before ['$'] ('\x7b' :: (e ++ '\x7d' :: (lining ps ++ t))) :=
    hr.begins.silent (by decide)
  cases hrun : Regex.run r (spot ('$' :: before) ('\x7b' :: (e ++ '\x7d' :: (lining ps ++ t))) [])
    some with
  | none =>
    -- the hole stays, and the parts behind it are replaced on their own
    obtain ⟨he, -⟩ := List.forall_mem_cons.mp hps
    obtain ⟨us, htaken, hrewrites⟩ := hlining ps (List.suffix_refl _)
      ((e ++ ['\x7d']).reverse ++ '\x7b' :: '$' :: before)
    have hbehind : '\x7b' ∉ e ++ ['\x7d'] := by simp [he.2.1]
    have hskips := Rewrites.skips (hr.begins.silent hbehind) hrewrites
    refine ⟨hole e :: us, htaken.cons he, ?_⟩
    rw [value_hole_append, value_hole_append]
    rw [List.append_assoc, List.append_assoc] at hskips
    exact Rewrites.skips hsign (.skip hrun hskips)
  | some u =>
    -- the sign before the brace is left, as a word of its own
    obtain ⟨cs, qs, hcs, hsplit, hsuffix, hle, hu⟩ := hr.exists_match hps ht hrun
    obtain ⟨us, htaken, hrewrites⟩ := hlining qs hsuffix (cs.reverse ++ '$' :: before)
    have hless : holes us < holes (hole e :: ps) :=
      Nat.lt_succ_of_le (Nat.le_trans htaken.holes_le hle)
    refine ⟨word ['$'] :: us, ⟨List.forall_mem_cons.mpr ⟨isSound_dollar, htaken.sound⟩,
      Or.inr ⟨List.mem_cons_self, hless⟩⟩, ?_⟩
    rw [hu] at hrun
    rw [value_hole_append, value_cons]
    rw [hsplit] at hsign hrun ⊢
    exact Rewrites.skips hsign (.hit hcs hrun hrewrites)

/-- A pattern for braces takes whole holes with all that stands between them. -/
theorem exists_taken (hr : TakesBraces r) (hps : ∀ p ∈ ps, p.IsSound) (hopen : '\x7b' ∉ t)
    (hclose : '\x7d' ∉ t) (before : List Char) :
    ∃ us, Taken ps us ∧ Rewrites r (fun _ => []) before (value ps ++ t) (value us ++ t) := by
  -- a match may take several parts, so the induction is on their number
  induction hlength : ps.length using Nat.strongRecOn generalizing ps before with
  | ind length ih =>
    subst hlength
    have hlining : ∀ qs : List TemplatePart, qs.length < ps.length → (∀ q ∈ qs, q.IsSound) →
        ∀ before, ∃ us, Taken qs us ∧
          Rewrites r (fun _ => []) before (lining qs ++ t) (lining us ++ t) := by
      intro qs hshorter hqs before
      by_cases hnil : qs = []
      · subst hnil
        exact ⟨[], Taken.refl hqs, hr.begins.rewrites hopen⟩
      · obtain ⟨us, htaken, hrewrites⟩ := ih qs.length hshorter hqs (' ' :: before) rfl
        have hblank : Silent r before [' '] (value qs ++ t) := hr.begins.silent (by decide)
        refine ⟨us, htaken, ?_⟩
        rw [lining_eq hnil, lining_eq (htaken.ne_nil hnil)]
        exact Rewrites.skips hblank hrewrites
    cases ps with
    | nil => exact ⟨[], Taken.refl hps, hr.begins.rewrites hopen⟩
    | cons p ps =>
      have hrest := (List.forall_mem_cons.mp hps).2
      cases p with
      | word w =>
        have hp := (List.forall_mem_cons.mp hps).1
        obtain ⟨us, htaken, hrewrites⟩ := hlining ps (Nat.lt_succ_self _) hrest (w.reverse ++ before)
        have hword : '\x7b' ∉ w := hp.not_mem_word (by decide) (by decide)
        refine ⟨word w :: us, htaken.cons hp, ?_⟩
        rw [value_cons, value_cons, List.append_assoc, List.append_assoc]
        exact Rewrites.skips (hr.begins.silent hword) hrewrites
      | hole e =>
        exact hr.exists_hole hps hclose (fun qs hqs => hlining qs (Nat.lt_succ_of_le hqs.length_le)
          fun q hq => hrest q (hqs.subset hq)) before

/-! ## The element around a value -/

theorem ne_of_mem_outerSigns {c : Char} (hc : c ∈ outerSigns) :
    isTokenChar c = false ∧ c ≠ ' ' ∧ c ≠ '$' ∧ c ≠ '\x7b' ∧ c ≠ '\x7d' := by
  simp only [outerSigns, List.mem_cons, List.not_mem_nil, or_false] at hc
  rcases hc with rfl | rfl | rfl | rfl | rfl <;> decide

theorem IsSound.isInner_text (h : p.IsSound) : IsInner p.text := by
  intro c hc
  obtain ⟨htoken, -, hdollar, hopen, hclose⟩ := ne_of_mem_outerSigns hc
  cases p with
  | word w => exact h.not_mem_word htoken hdollar
  | hole e => simp [text, hdollar, hopen, hclose, h.1 c hc]

theorem isInner_value (hps : ∀ p ∈ ps, p.IsSound) : IsInner (value ps) := by
  intro c hc hmem
  rcases Text.mem_of_mem_intercalate hmem with hsep | ⟨cs, hcs, hmem⟩
  · exact (ne_of_mem_outerSigns hc).2.1 (List.mem_singleton.mp hsep)
  · obtain ⟨p, hp, rfl⟩ := List.mem_map.mp hcs
    exact (hps p hp).isInner_text c hc hmem

/-- What stands before the value of a class attribute, and behind it. -/
def divStart : List Char := "<div class=\"".toList

def divEnd : List Char := "\"></div>".toList

theorem div_canonical (v : List Char) : canonical.div v = divStart ++ (v ++ divEnd) := by
  have hquotes : inQuotes v ++ "></div>".toList = '"' :: (v ++ divEnd) :=
    congrArg ('"' :: ·) (List.append_assoc v ['"'] "></div>".toList)
  rw [div_eq, text_canonical, List.append_assoc, hquotes]
  rfl

theorem replaceAll_div_of_rewrites {f : Regex.Match → List Char} {v v' : List Char}
    (hstart : Silent r [] divStart (v ++ divEnd))
    (h : Rewrites r f divStart.reverse (v ++ divEnd) (v' ++ divEnd)) :
    r.replaceAll f (canonical.div v) = canonical.div v' := by
  rw [div_canonical, div_canonical, Regex.replaceAll_append_of_rewrites hstart h]

theorem TakesBraces.exists_removeAll (hr : TakesBraces r) (hps : ∀ p ∈ ps, p.IsSound) :
    ∃ qs, Taken ps qs ∧ r.removeAll (canonical.div (value ps)) = canonical.div (value qs) := by
  obtain ⟨qs, htaken, hrewrites⟩ := exists_taken hr hps (t := divEnd) (by decide) (by decide)
    divStart.reverse
  exact ⟨qs, htaken, replaceAll_div_of_rewrites (hr.begins.silent (by decide)) hrewrites⟩

/-- Several patterns take holes as each of them does. -/
theorem exists_removeEach {rs : List Regex}
    (hrs : ∀ r ∈ rs, ∀ ps : List TemplatePart, (∀ p ∈ ps, p.IsSound) →
      ∃ qs, Taken ps qs ∧ r.removeAll (canonical.div (value ps)) = canonical.div (value qs))
    (hps : ∀ p ∈ ps, p.IsSound) :
    ∃ qs, Taken ps qs ∧ removeEach rs (canonical.div (value ps)) = canonical.div (value qs) := by
  induction rs generalizing ps with
  | nil => exact ⟨ps, Taken.refl hps, rfl⟩
  | cons r rs ih =>
    rw [List.forall_mem_cons] at hrs
    obtain ⟨qs, htaken, hfirst⟩ := hrs.1 ps hps
    obtain ⟨us, htaken', hothers⟩ := ih hrs.2 htaken.sound
    refine ⟨us, htaken.trans htaken', ?_⟩
    rw [← hothers, ← hfirst]
    rfl

theorem takesBraces_enclosed {opening closing : String} (ho : opening.toList.head? = some '\x7b')
    (hc : closing.toList.getLast? = some '\x7d') : TakesBraces (Pattern.enclosed opening closing) := by
  obtain ⟨o, ho⟩ := List.head?_eq_some_iff.mp ho
  obtain ⟨c, hc⟩ := List.getLast?_eq_some_iff.mp hc
  refine ⟨((beginsWith_text ho).seq).seq, ?_⟩
  refine ((Regex.yields_advances _).seq Regex.yields_text).weaken ?_
  rintro s u ⟨v, ⟨cs, -, hafter, -⟩, hclosing⟩
  refine ⟨cs ++ c, ?_⟩
  rw [hafter, hclosing, hc]
  simp

theorem takesBraces_spread : TakesBraces (.text "\x7b..." ++
    .many1 (CharSet.single '\x7d').not ++ Pattern.char '\x7d') := by
  refine ⟨((beginsWith_text (show "\x7b...".toList = '\x7b' :: ['.', '.', '.'] from rfl)).seq).seq, ?_⟩
  refine ((Regex.yields_advances _).seq (yields_char '\x7d')).weaken ?_
  rintro s u ⟨v, ⟨cs, -, hafter, -⟩, hclosing⟩
  exact ⟨cs, by rw [hafter, hclosing]⟩

/-- The patterns before those for words take holes. -/
theorem exists_removeEach_take (hps : ∀ p ∈ ps, p.IsSound) :
    ∃ qs, Taken ps qs ∧
      removeEach (Pattern.templateSyntax.take 6) (canonical.div (value ps)) =
        canonical.div (value qs) := by
  refine exists_removeEach ?_ hps
  simp only [Pattern.templateSyntax, List.take_succ_cons, List.take_zero, List.forall_mem_cons,
    List.not_mem_nil, false_implies, implies_true, and_true]
  refine ⟨fun ps hps => takesBraces_spread.exists_removeAll hps,
    fun ps hps => ⟨ps, Taken.refl hps,
      removeAll_enclosed_of_tags (isInner_value hps) rfl (by decide)⟩,
    fun ps hps => (takesBraces_enclosed rfl rfl).exists_removeAll hps,
    fun ps hps => (takesBraces_enclosed rfl rfl).exists_removeAll hps,
    fun ps hps => (takesBraces_enclosed rfl rfl).exists_removeAll hps,
    fun ps hps => (takesBraces_enclosed rfl rfl).exists_removeAll hps⟩

/-- At the start of the element one blank stands, and the name of the attribute behind it. -/
theorem silent_divStart (hr : BeginsBlank r)
    (hname : ∀ before rest, Regex.run r (spot before (' ' :: ("class=".toList ++ '"' :: rest)) []) some =
      none) (rest : List Char) : Silent r [] divStart rest := by
  have hattribute : Silent r "<div".toList.reverse (' ' :: "class=\"".toList) rest :=
    .cons (hname _ _) (hr.silent (isBlank_of_all (by decide)))
  have hall : Silent r [] ("<div".toList ++ ' ' :: "class=\"".toList) rest :=
    Silent.append (hr.silent (isBlank_of_all (by decide))) (by rwa [List.append_nil])
  exact hall

theorem isTagWord_name : IsTagWord "class=".toList :=
  ⟨by decide, isBlank_of_all (by decide), by decide, fun h => by cases h⟩

/-! ## Patterns for words -/

/-- A pattern for words. It takes a word with the blank before it or leaves both, and it takes nothing
at the blank before a hole, and nothing in a hole but what stands before its end. -/
structure TakesWords (r : Regex) (drop : List Char → Bool) : Prop where
  begins : BeginsBlank r
  shortest : 0 < r.shortest
  hits : ∀ w before rest, IsToken w → EndsWord rest → drop w = true →
    Eats r (' ' :: w) before rest [] []
  misses : ∀ w before rest, IsTagWord w → EndsWord rest → drop w = false →
    Regex.run r (spot before (' ' :: (w ++ rest)) []) some = none
  sign : ∀ before rest, Regex.run r (spot before (' ' :: '$' :: rest) []) some = none
  inside : ∀ before y rest u, (hole y).IsSound →
    Regex.run r (spot before (y ++ '\x7d' :: rest) []) some = some u →
      ∃ cs y', y = cs ++ y' ∧ u.after = y' ++ '\x7d' :: rest
  first : ∀ w, drop ('c' :: w) = false
  signWord : drop ['$'] = false

variable {drop : List Char → Bool} {out : List Char}

theorem IsSound.of_sublist {e' : List Char} (h : (hole e).IsSound) (hsub : e'.Sublist e) :
    (hole e').IsSound :=
  ⟨fun c hc hmem => h.1 c hc (hsub.subset hmem), fun hmem => h.2.1 (hsub.subset hmem),
    fun hmem => h.2.2 (hsub.subset hmem)⟩

/-- A hole stays a hole. -/
theorem TakesWords.exists_hole (hr : TakesWords r drop) (he : (hole e).IsSound)
    (hrest : Rewrites r (fun _ => []) ('\x7d' :: (e.reverse ++ '\x7b' :: '$' :: before)) rest out) :
    ∃ e', (hole e').IsSound ∧ Rewrites r (fun _ => []) before
      ('$' :: '\x7b' :: (e ++ '\x7d' :: rest)) ('$' :: '\x7b' :: (e' ++ '\x7d' :: out)) := by
  have hclose : Silent r (e.reverse ++ '\x7b' :: '$' :: before) ['\x7d'] rest :=
    hr.begins.silent (isBlank_of_all rfl)
  obtain ⟨e', hrecast, hrewrites⟩ : ∃ e', Recast (fun _ w => w = []) e e' ∧ Rewrites r (fun _ => [])
      ('\x7b' :: '$' :: before) (e ++ '\x7d' :: rest) (e' ++ '\x7d' :: out) :=
    Regex.exists_recast hr.shortest (fun before y u _ hy hrun => by
      obtain ⟨cs, y', heq, hafter⟩ := hr.inside before y rest u (he.of_sublist hy.sublist) hrun
      exact ⟨cs, y', heq, hafter, rfl⟩) (Rewrites.skips hclose hrest)
  have hopen : Silent r before ['$', '\x7b'] (e ++ '\x7d' :: rest) :=
    hr.begins.silent (isBlank_of_all rfl)
  exact ⟨e', he.of_sublist (hrecast.sublist fun _ _ hw => hw), Rewrites.skips hopen hrewrites⟩

theorem endsWord_lining (ps : List TemplatePart) : EndsWord (lining ps ++ divEnd) :=
  EndsWord.lined ⟨'"', rfl, by decide⟩ _

theorem TakesWords.exists_lining (hr : TakesWords r drop) (hps : ∀ p ∈ ps, p.IsSound)
    (before : List Char) :
    ∃ qs, (∀ q ∈ qs, q.IsSound) ∧ holes qs = holes ps ∧
      words qs = (words ps).filter (fun w => !drop w) ∧
        Rewrites r (fun _ => []) before (lining ps ++ divEnd) (lining qs ++ divEnd) := by
  induction ps generalizing before with
  | nil => exact ⟨[], hps, rfl, rfl, hr.begins.rewrites (isBlank_of_all (by decide))⟩
  | cons p ps ih =>
    rw [List.forall_mem_cons] at hps
    cases p with
    | word w =>
      obtain ⟨qs, hqs, hholes, hwords, hrewrites⟩ := ih hps.2 (w.reverse ++ ' ' :: before)
      rw [lining_word, List.cons_append, List.append_assoc]
      cases hdrop : drop w with
      | true =>
        -- the word goes, and the blank in front of it
        have hw : IsToken w := hps.1.resolve_left fun heq => by
          rw [heq, hr.signWord] at hdrop
          cases hdrop
        have hmatch := hr.hits w before _ hw (endsWord_lining ps) hdrop
        have hhit : Rewrites r (fun _ => []) ((' ' :: w).reverse ++ before) (lining ps ++ divEnd)
            (lining qs ++ divEnd) := by simpa using hrewrites
        refine ⟨qs, hqs, hholes, ?_, .hit (List.cons_ne_nil _ _) (hmatch some _ rfl) hhit⟩
        rw [words, List.filter_cons_of_neg (by simp [hdrop]), hwords]
      | false =>
        have hblank := hr.misses w before _ hps.1.isTagWord (endsWord_lining ps) hdrop
        refine ⟨word w :: qs, List.forall_mem_cons.mpr ⟨hps.1, hqs⟩, hholes, ?_, ?_⟩
        · rw [words, words, List.filter_cons_of_pos (by simp [hdrop]), hwords]
        · rw [lining_word, List.cons_append, List.append_assoc]
          exact .skip hblank (Rewrites.skips (hr.begins.silent hps.1.isTagWord.blank) hrewrites)
    | hole e =>
      obtain ⟨qs, hqs, hholes, hwords, hrewrites⟩ := ih hps.2
        ('\x7d' :: (e.reverse ++ '\x7b' :: '$' :: ' ' :: before))
      obtain ⟨e', he', hhole⟩ := hr.exists_hole hps.1 hrewrites
      refine ⟨hole e' :: qs, List.forall_mem_cons.mpr ⟨he', hqs⟩, ?_, hwords, ?_⟩
      · rw [holes, holes, hholes]
      · rw [lining_hole_append, lining_hole_append]
        exact .skip (hr.sign _ _) hhole

/-- The word that a part is, if it is one. -/
def word? : TemplatePart → Option (List Char)
  | word w => some w
  | hole _ => none

/-- Parts as patterns for words leave them: of the words behind the first part only those of some kind
stay. -/
structure Thinned (keep : List Char → Bool) (ps qs : List TemplatePart) : Prop where
  sound : ∀ q ∈ qs, q.IsSound
  holes_eq : holes qs = holes ps
  head : qs.head?.map word? = ps.head?.map word?
  tail : words qs.tail = (words ps.tail).filter keep

theorem TakesWords.exists_value (hr : TakesWords r drop) (hps : ∀ p ∈ ps, p.IsSound)
    (before : List Char) :
    ∃ qs, Thinned (fun w => !drop w) ps qs ∧
      Rewrites r (fun _ => []) before (value ps ++ divEnd) (value qs ++ divEnd) := by
  cases ps with
  | nil => exact ⟨[], ⟨hps, rfl, rfl, rfl⟩, hr.begins.rewrites (isBlank_of_all (by decide))⟩
  | cons p ps =>
    rw [List.forall_mem_cons] at hps
    cases p with
    | word w =>
      obtain ⟨qs, hqs, hholes, hwords, hrewrites⟩ := hr.exists_lining hps.2 (w.reverse ++ before)
      refine ⟨word w :: qs, ⟨List.forall_mem_cons.mpr ⟨hps.1, hqs⟩, hholes, rfl, hwords⟩, ?_⟩
      rw [value_cons, value_cons, List.append_assoc, List.append_assoc]
      exact Rewrites.skips (hr.begins.silent hps.1.isTagWord.blank) hrewrites
    | hole e =>
      obtain ⟨qs, hqs, hholes, hwords, hrewrites⟩ := hr.exists_lining hps.2
        ('\x7d' :: (e.reverse ++ '\x7b' :: '$' :: before))
      obtain ⟨e', he', hhole⟩ := hr.exists_hole hps.1 hrewrites
      refine ⟨hole e' :: qs, ⟨List.forall_mem_cons.mpr ⟨he', hqs⟩, ?_, rfl, hwords⟩, ?_⟩
      · rw [holes, holes, hholes]
      · rw [value_hole_append, value_hole_append]
        exact hhole

theorem TakesWords.exists_removeAll (hr : TakesWords r drop) (hps : ∀ p ∈ ps, p.IsSound) :
    ∃ qs, Thinned (fun w => !drop w) ps qs ∧
      r.removeAll (canonical.div (value ps)) = canonical.div (value qs) := by
  obtain ⟨qs, hthinned, hrewrites⟩ := hr.exists_value hps divStart.reverse
  have hstart := silent_divStart hr.begins (fun before rest =>
    hr.misses "class=".toList before _ isTagWord_name ⟨'"', rfl, by decide⟩ (hr.first _))
  exact ⟨qs, hthinned, replaceAll_div_of_rewrites (hstart _) hrewrites⟩

/-- A match stays inside of a hole if all of it does but a value at its end, and none is there. -/
theorem exists_inside {a b : Regex} (ha : a.avoids ['\x7d'] = true)
    (hb : ∀ y (s u : Cursor), (hole y).IsSound → s.after = y ++ '\x7d' :: rest →
      Regex.run b s some = some u → u = s)
    {y : List Char} {u : Cursor} (hy : (hole y).IsSound)
    (hrun : Regex.run (.seq a b) (spot before (y ++ '\x7d' :: rest) []) some = some u) :
    ∃ cs y', y = cs ++ y' ∧ u.after = y' ++ '\x7d' :: rest := by
  obtain ⟨v, ⟨cs, hafter, hcs⟩, hv⟩ := Regex.yields_avoids ha _ _ _ hrun
  obtain ⟨y', rfl, hy'⟩ := exists_of_append_cons_eq hafter (hcs _ (by simp))
  refine ⟨cs, y', rfl, ?_⟩
  rw [hb y' v u (hy.of_sublist (List.sublist_append_right cs y')) hy' hv, hy']

theorem ne_of_head?_in_hole {y : List Char} {s : Cursor} (hy : (hole y).IsSound)
    (hs : s.after = y ++ '\x7d' :: rest) {c : Char} (hc : s.after.head? = some c) :
    c ≠ '"' ∧ c ≠ '\'' ∧ c ≠ '\x7b' := by
  rw [hs] at hc
  cases y with
  | nil =>
    cases hc
    decide
  | cons d y =>
    cases hc
    have hmem : c ∈ c :: y := List.mem_cons_self
    refine ⟨?_, ?_, ?_⟩ <;> rintro rfl
    · exact hy.1 _ (by decide) hmem
    · exact hy.1 _ (by decide) hmem
    · exact hy.2.1 hmem

/-- In a hole no sign is followed by a value in quotes. -/
theorem eq_of_run_optionalValue {y : List Char} {s u : Cursor} (hy : (hole y).IsSound)
    (hs : s.after = y ++ '\x7d' :: rest) (hrun : Regex.run Pattern.optionalValue s some = some u) :
    u = s := by
  have hrefuses : Refuses (Regex.run (Pattern.char '=' ++ Pattern.plainQuoted)) s := by
    refine Regex.refuses_seq_of_yields (yields_char '=') fun v hv => ?_
    rw [hs] at hv
    cases y with
    | nil => exact absurd (List.cons.inj hv).1 (by decide)
    | cons c y =>
      have hsub : y.Sublist (c :: y) := List.sublist_cons_self c y
      have hhead := fun d => ne_of_head?_in_hole (hy.of_sublist hsub) (List.cons.inj hv).2.symm (c := d)
      exact (Refuses.seq (Refuses.seq (refuses_char fun d hd => (hhead d hd).1))).alt
        (Refuses.seq (Refuses.seq (refuses_char fun d hd => (hhead d hd).2.1)))
  have halt : Regex.run Pattern.optionalValue s some =
      (Regex.run (Pattern.char '=' ++ Pattern.plainQuoted) s some).or (Regex.run .empty s some) :=
    Regex.run_alt
  rw [halt, hrefuses] at hrun
  cases hrun
  rfl

/-- Nor by content in braces. -/
theorem refuses_content_in_hole {y : List Char} {s : Cursor} (hy : (hole y).IsSound)
    (hs : s.after = y ++ '\x7d' :: rest) :
    Refuses (Regex.run (.alt (Pattern.char '"' ++ .allBut '"' ++ Pattern.char '"')
      (Pattern.enclosed "\x7b" "\x7d"))) s := by
  have hhead := fun d => ne_of_head?_in_hole hy hs (c := d)
  exact (Refuses.seq (Refuses.seq (refuses_char fun d hd => (hhead d hd).1))).alt
    (Refuses.seq (Refuses.seq (refuses_char fun d hd => (hhead d hd).2.2)))

theorem refuses_behind_sign {b : Regex} (hb : b.mayBegin ['$'] = false) :
    Refuses (Regex.run (.seq Pattern.someBlanks b)) (spot before (' ' :: '$' :: rest) []) :=
  refuses_behind_blank (w := ['$']) isSound_dollar.isTagWord (by decide) fun _ hu _ =>
    Regex.refuses_of_mayBegin hb hu

theorem takesWords_directive : TakesWords Pattern.directive isDirective where
  begins := (beginsBlank_span (by decide)).seq.seq
  shortest := by decide
  hits := fun _ _ _ hw hrest h => eats_directive hw hrest h
  misses := fun _ _ _ hw hrest h => run_directive hw hrest h
  sign := fun _ _ => Refuses.seq (refuses_behind_sign (by decide)) some
  inside := fun _ _ _ _ hy hrun => exists_inside (by decide)
    (fun _ _ _ hy hs hv => eq_of_run_optionalValue hy hs hv) hy hrun
  first := fun _ => rfl
  signWord := rfl

theorem takesWords_eventHandler : TakesWords Pattern.eventHandler isEvent where
  begins := (beginsBlank_span (by decide)).seq.seq.seq.seq
  shortest := by decide
  hits := fun _ _ _ hw hrest h => eats_eventHandler hw hrest h
  misses := fun _ _ _ hw hrest h => run_eventHandler hw hrest h
  sign := fun _ _ => Refuses.seq (Refuses.seq (Refuses.seq (refuses_behind_sign (by decide)))) some
  inside := fun _ _ _ _ hy hrun => exists_inside (by decide)
    (fun _ _ _ hy hs hv => eq_of_run_optionalValue hy hs hv) hy hrun
  first := fun _ => rfl
  signWord := rfl

theorem takesWords_rawContent : TakesWords Pattern.rawContent fun _ => false where
  begins := (beginsBlank_span (by decide)).seq.seq
  shortest := by decide
  hits := fun _ _ _ _ _ h => by cases h
  misses := fun _ _ _ hw hrest _ => run_rawContent hw hrest
  sign := fun _ _ => Refuses.seq (refuses_behind_sign (by decide)) some
  inside := fun _ _ _ _ hy hrun => exists_inside (by decide)
    (fun _ _ _ hy hs hv => by
      rw [refuses_content_in_hole hy hs] at hv
      cases hv) hy hrun
  first := fun _ => rfl
  signWord := rfl

/-! ## Patterns for words, one after the other -/

theorem Thinned.trans {keep keep' : List Char → Bool} {us : List TemplatePart}
    (h : Thinned keep ps qs) (h' : Thinned keep' qs us) :
    Thinned (fun w => keep w && keep' w) ps us := by
  refine ⟨h'.sound, h'.holes_eq.trans h.holes_eq, h'.head.trans h.head, ?_⟩
  rw [h'.tail, h.tail, List.filter_filter]
  exact List.filter_congr fun w _ => Bool.and_comm _ _

/-- Of the words behind the first part those stay that are not taken for template syntax. -/
theorem exists_removeEach_words (hps : ∀ p ∈ ps, p.IsSound) :
    ∃ qs, Thinned isKept ps qs ∧
      removeEach [fragmentTag, Pattern.directive, Pattern.eventHandler, Pattern.rawContent]
        (canonical.div (value ps)) = canonical.div (value qs) := by
  obtain ⟨qs, hqs, hdirective⟩ := takesWords_directive.exists_removeAll hps
  obtain ⟨us, hus, hevent⟩ := takesWords_eventHandler.exists_removeAll hqs.sound
  obtain ⟨vs, hvs, hcontent⟩ := takesWords_rawContent.exists_removeAll hus.sound
  have hall : Thinned (fun w => ((!isDirective w) && !isEvent w) && !false) ps vs :=
    (hqs.trans hus).trans hvs
  simp only [Bool.not_false, Bool.and_true] at hall
  refine ⟨vs, hall, ?_⟩
  simp only [removeEach, List.foldl_cons, List.foldl_nil]
  rw [removeAll_fragmentTag (isInner_value hps), hdirective, hevent, hcontent]

end TemplatePart

end BlockMarkup.Markup
