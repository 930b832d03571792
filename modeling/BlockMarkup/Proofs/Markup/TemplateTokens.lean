import BlockMarkup.Proofs.Markup.ClassTokens
import BlockMarkup.Proofs.Markup.Interpolation

/-! # Class tokens of a template literal

A class attribute can be a template literal, with words that stay and holes that vanish when it is
sanitized. A hole is taken from its opening brace to the first closing one, by the last of the patterns
for template syntax; so an expression may have no braces of its own, and the patterns before must leave
the holes alone (`KeepsHoles`). Then the tokens are those of the words, except that a word behind a hole
is not the first one of the attribute (`StartsKept`). `readTokens_template_iff` says that nothing else
makes a difference.
-/

namespace BlockMarkup.Markup

open BlockMarkup.Regex (CharSet Cursor Eats Recast Refuses Rewrites Silent Yields)
open BlockMarkup.Regex.Cursor (spot)
open ClassSpelling

namespace TemplatePart

variable {r : Regex} {p : TemplatePart} {ps qs : List TemplatePart}
  {before rest out t w e v x z : List Char}

/-! ## Holes that are removed -/

/-- The pattern for interpolations, the last one of those for template syntax. -/
def interpolation : Regex := Pattern.enclosed "$\x7b" "\x7d"

theorem beginsWith_interpolation : BeginsWith '$' interpolation :=
  ((beginsWith_text (show "$\x7b".toList = '$' :: ['\x7b'] from rfl)).seq).seq

/-- A hole without braces is taken as a whole. -/
theorem eats_interpolation (he : '\x7d' ∉ e) :
    Eats interpolation ("$\x7b".toList ++ (e ++ "\x7d".toList)) before rest [] [] := by
  refine Eats.assoc (Regex.eats_text.seq (Regex.eats_anyText_text fun x c y heq hprefix => ?_))
  have hc : '\x7d' = c := (List.cons_prefix_cons.mp hprefix).1
  exact he (by rw [heq, hc]; simp)

/-- A sign without a brace begins no hole. -/
theorem run_interpolation_sign (hrest : EndsWord rest) :
    Regex.run interpolation (spot before ('$' :: rest) []) some = none := by
  refine Refuses.seq (Refuses.seq (Regex.refuses_of_yields Regex.yields_text fun u hu => ?_)) some
  obtain ⟨c, hc, hmem⟩ := hrest
  have hrest' : rest = '\x7b' :: u.after := (List.cons.inj hu).2
  rw [hrest'] at hc
  cases hc
  revert hmem
  decide

/-- What is left of a part when holes are removed. -/
def stub : TemplatePart → List Char
  | word w => w
  | hole _ => []

theorem rewrites_part (hp : p.IsSound) (hrest : EndsWord rest)
    (h : Rewrites interpolation (fun _ => []) (p.text.reverse ++ before) rest out) :
    Rewrites interpolation (fun _ => []) before (p.text ++ rest) (p.stub ++ out) := by
  cases p with
  | word w =>
    rcases hp with rfl | hw
    · exact .skip (run_interpolation_sign hrest) h
    · exact Rewrites.skips (beginsWith_interpolation.silent (hw.not_mem (by decide))) h
  | hole e =>
    exact .hit (List.cons_ne_nil _ _) (eats_interpolation hp.2.2 some _ rfl) h

theorem rewrites_lining (hps : ∀ p ∈ ps, p.IsSound) (before : List Char) :
    Rewrites interpolation (fun _ => []) before (lining ps ++ divEnd)
      (lined (ps.map stub) ++ divEnd) := by
  induction ps generalizing before with
  | nil => exact beginsWith_interpolation.rewrites (by decide)
  | cons p ps ih =>
    rw [List.forall_mem_cons] at hps
    have hpart := rewrites_part hps.1 (endsWord_lining ps) (ih hps.2 (p.text.reverse ++ ' ' :: before))
    rw [← List.append_assoc, ← List.append_assoc] at hpart
    have hblank : Silent interpolation before [' '] ((p.text ++ lining ps) ++ divEnd) :=
      beginsWith_interpolation.silent (by decide)
    exact Rewrites.skips hblank hpart

/-- Removing interpolations leaves the words, with the blanks around the holes. -/
theorem removeAll_interpolation (hps : ∀ p ∈ ps, p.IsSound) :
    interpolation.removeAll (canonical.div (value ps)) =
      canonical.div ([' '].intercalate (ps.map stub)) := by
  refine replaceAll_div_of_rewrites (beginsWith_interpolation.silent (by decide)) ?_
  cases ps with
  | nil => exact beginsWith_interpolation.rewrites (by decide)
  | cons p ps =>
    rw [List.forall_mem_cons] at hps
    have hvalue : [' '].intercalate ((p :: ps).map stub) = p.stub ++ lined (ps.map stub) :=
      intercalate_cons _ _
    rw [value_cons, hvalue, List.append_assoc, List.append_assoc]
    exact rewrites_part hps.1 (endsWord_lining ps) (rewrites_lining hps.2 _)

theorem filter_stub (hps : ∀ p ∈ ps, p.IsSound) :
    (ps.map stub).filter (fun w => !w.isEmpty) = words ps := by
  induction ps with
  | nil => rfl
  | cons p ps ih =>
    rw [List.forall_mem_cons] at hps
    cases p with
    | word w =>
      have hne := hps.1.isTagWord.ne_nil
      rw [words, ← ih hps.2, List.map_cons]
      exact List.filter_cons_of_pos (by simpa [stub] using hne)
    | hole e => exact ih hps.2

theorem wordsOf_stubs (hps : ∀ p ∈ ps, p.IsSound) :
    Text.wordsOf ([' '].intercalate (ps.map stub)) = words ps := by
  rw [Text.wordsOf_intercalate_filter, filter_stub hps]
  intro w hw
  obtain ⟨p, hp, rfl⟩ := List.mem_map.mp hw
  cases p with
  | word w => exact (hps _ hp).isTagWord.blank
  | hole e => exact fun c hc => by cases hc

/-! ## Blanks in rows -/

/-- The stretches that are made one blank. -/
def IsWide (cs w : List Char) : Prop :=
  w = [' '] ∧ cs ≠ [] ∧ ∀ c ∈ cs, Text.isBlank c = true

/-- Blanks that become one part the same words. -/
theorem wordsFrom_eq_of_recast (h : Recast IsWide v out) (word : List Char) :
    Text.wordsFrom word out = Text.wordsFrom word v := by
  induction h generalizing word with
  | nil => rfl
  | keep c _ ih => simp only [Text.wordsFrom, ih]
  | @swap v out cs w hwide _ ih =>
    obtain ⟨rfl, hne, hblank⟩ := hwide
    rw [Text.wordsFrom_blank_run hne hblank]
    simp only [List.singleton_append, Text.wordsFrom, ih]

/-- Blanks in rows become one, within the value of the attribute. -/
theorem exists_replaceAll_wideBlank (v : List Char) : ∃ out, Recast IsWide v out ∧
    Pattern.wideBlank.replaceAll (fun _ => [' ']) (canonical.div v) = canonical.div out := by
  have hbegins : BeginsBlank Pattern.wideBlank := beginsBlank_span (by decide)
  obtain ⟨out, hrecast, hrewrites⟩ : ∃ out, Recast IsWide v out ∧ Rewrites Pattern.wideBlank
      (fun _ => [' ']) divStart.reverse (v ++ divEnd) (out ++ divEnd) :=
    Regex.exists_recast (by decide) (fun before y u _ hy hrun => by
      obtain ⟨cs, hafter, hle, hset⟩ := (Regex.yields_span_least _ _ _ _).rel hrun
      have hblank : ∀ c ∈ cs, Text.isBlank c = true := fun c hc =>
        CharSet.contains_blank.symm.trans (hset c hc)
      have hquote : '"' ∉ cs := fun hmem => absurd (hblank _ hmem) (by decide)
      obtain ⟨y', rfl, hy'⟩ := exists_of_append_cons_eq (d := '"') hafter hquote
      exact ⟨cs, y', rfl, hy', rfl, List.ne_nil_of_length_pos (Nat.lt_of_lt_of_le (by decide) hle),
        hblank⟩) (hbegins.rewrites (isBlank_of_all (by decide)))
  refine ⟨out, hrecast, replaceAll_div_of_rewrites (silent_divStart hbegins ?_ _) hrewrites⟩
  exact fun before rest => run_wideBlank isTagWord_name

/-! ## Sanitized template literals -/

/-- A template literal of an inner text becomes a class attribute. -/
theorem dropOpaque_template (hv : IsInner v) :
    dropOpaque (div ⟨.camel, .bracedTemplate⟩ v) = canonical.div v := by
  have hcamel : (Pattern.templateLiteral "className").replaceAll toClassAttribute
      (div ⟨.camel, .bracedTemplate⟩ v) = canonical.div v :=
    replaceAll_pattern_self ⟨.camel, .bracedTemplate⟩ (hv.quote_not_mem .bracedTemplate)
  have hplain : (Pattern.templateLiteral "class").replaceAll toClassAttribute (canonical.div v) =
      canonical.div v :=
    replaceAll_div_of_lack (d := '\x60') (hv _ (by decide)) (by decide)
  rw [dropOpaque, hcamel, hplain, dropRaw_div hv]

/-- The words of a template literal that are not taken for template syntax. If it begins with a word,
that one is not. -/
def keptWords : List TemplatePart → List (List Char)
  | word w :: ps => w :: (words ps).filter isKept
  | ps => (words ps).filter isKept

theorem Thinned.words_eq (h : Thinned isKept ps qs) : words qs = keptWords ps := by
  have hhead := h.head
  have htail := h.tail
  cases ps with
  | nil =>
    cases qs with
    | nil => rfl
    | cons q qs => cases hhead
  | cons p ps =>
    cases qs with
    | nil => cases hhead
    | cons q qs =>
      cases p <;> cases q <;> simp_all [word?, words, keptWords]

/-- What the patterns before the one for interpolations make of a template literal. -/
theorem exists_removeEach_before (hps : ∀ p ∈ ps, p.IsSound) :
    ∃ qs us, Taken ps qs ∧ Thinned isKept qs us ∧
      removeEach (Pattern.templateSyntax.take 10) (canonical.div (value ps)) =
        canonical.div (value us) := by
  have hsplit : Pattern.templateSyntax.take 10 = Pattern.templateSyntax.take 6 ++
      [fragmentTag, Pattern.directive, Pattern.eventHandler, Pattern.rawContent] := rfl
  obtain ⟨qs, htaken, hbraces⟩ := exists_removeEach_take hps
  obtain ⟨us, hthinned, hwords⟩ := exists_removeEach_words htaken.sound
  exact ⟨qs, us, htaken, hthinned, by rw [hsplit, removeEach_append, hbraces, hwords]⟩

/-- The characters of words and the blanks between them, and the sign that is left of a hole. -/
theorem mem_stubs {c : Char} (hps : ∀ p ∈ ps, p.IsSound)
    (hc : c ∈ [' '].intercalate (ps.map stub)) : isTokenChar c = true ∨ c = '$' ∨ c = ' ' := by
  rcases Text.mem_of_mem_intercalate hc with hsep | ⟨w, hw, hc⟩
  · exact Or.inr (Or.inr (List.mem_singleton.mp hsep))
  · obtain ⟨p, hp, rfl⟩ := List.mem_map.mp hw
    cases p with
    | word w =>
      rcases hps _ hp with rfl | hw
      · exact Or.inr (Or.inl (List.mem_singleton.mp hc))
      · exact Or.inl (hw.mem c hc)
    | hole e => cases hc

/-- The rest of sanitizing leaves the words. -/
theorem sanitize_stubs (hps : ∀ p ∈ ps, p.IsSound) :
    tidyValues (openComponents (unifyClasses (Pattern.wideBlank.replaceAll (fun _ => [' '])
      (interpolation.removeAll (canonical.div (value ps)))))) =
        cleanedDiv (withoutBare (words ps)) := by
  obtain ⟨out, hrecast, hblank⟩ := exists_replaceAll_wideBlank ([' '].intercalate (ps.map stub))
  -- making rows of blanks one writes no new sign but a blank
  have hmem : ∀ c ∈ out, isTokenChar c = true ∨ c = '$' ∨ c = ' ' := by
    intro c hc
    rcases hrecast.mem hc with hc | ⟨cs, w, ⟨rfl, -⟩, hc⟩
    · exact mem_stubs hps hc
    · exact Or.inr (Or.inr (List.mem_singleton.mp hc))
  have hnot : ∀ c, isTokenChar c = false → c ≠ '$' → c ≠ ' ' → c ∉ out := by
    intro c htoken hdollar hblank hc
    rcases hmem c hc with h | h | h
    · rw [h] at htoken
      cases htoken
    · exact hdollar h
    · exact hblank h
  have hinner : IsInner out := fun c hc => by
    obtain ⟨htoken, hspace, hdollar, -, -⟩ := ne_of_mem_outerSigns hc
    exact hnot c htoken hdollar hspace
  have hsign : '=' ∉ out := hnot _ (by decide) (by decide) (by decide)
  have hwords : Text.wordsOf out = words ps :=
    (wordsFrom_eq_of_recast hrecast []).trans (wordsOf_stubs hps)
  have hunify : unifyClasses (canonical.div out) = canonical.div out :=
    unifyClasses_div (by decide) hinner hsign
  rw [removeAll_interpolation hps, hblank, hunify, openComponents_div hinner,
    tidyValues_canonical hinner, hwords]

/-- What sanitizing makes of a template literal. -/
theorem exists_sanitize (hps : ∀ p ∈ ps, p.IsSound) :
    ∃ qs us, Taken ps qs ∧ Thinned isKept qs us ∧
      removeEach (Pattern.templateSyntax.take 10) (canonical.div (value ps)) =
        canonical.div (value us) ∧
      sanitize (div ⟨.camel, .bracedTemplate⟩ (value ps)) =
        cleanedDiv (withoutBare (keptWords qs)) := by
  obtain ⟨qs, us, htaken, hthinned, hbefore⟩ := exists_removeEach_before hps
  have hsyntax : Pattern.templateSyntax = Pattern.templateSyntax.take 10 ++ [interpolation] := rfl
  have htemplates : dropTemplates (canonical.div (value ps)) = Pattern.wideBlank.replaceAll (fun _ => [' '])
      (interpolation.removeAll (canonical.div (value us))) := by
    rw [dropTemplates, hsyntax, removeEach_append, hbefore]
    rfl
  refine ⟨qs, us, htaken, hthinned, hbefore, ?_⟩
  rw [sanitize, dropOpaque_template (isInner_value hps), htemplates, sanitize_stubs hthinned.sound,
    hthinned.words_eq]

/-! ## Holes that stay -/

theorem count_lining (hps : ∀ p ∈ ps, p.IsSound) : (lining ps).count '\x7d' = holes ps := by
  induction ps with
  | nil => rfl
  | cons p ps ih =>
    rw [List.forall_mem_cons] at hps
    cases p with
    | word w =>
      have hword : w.count '\x7d' = 0 :=
        List.count_eq_zero.mpr (hps.1.not_mem_word (by decide) (by decide))
      simp [lining_word, holes, hword, ih hps.2]
    | hole e =>
      have hhole : e.count '\x7d' = 0 := List.count_eq_zero.mpr hps.1.2.2
      simp [lining_cons, text, holes, hhole, ih hps.2, Nat.add_comm]

theorem count_div_value (hps : ∀ p ∈ ps, p.IsSound) :
    (canonical.div (value ps)).count '\x7d' = holes ps := by
  have hvalue : (value ps).count '\x7d' = (lining ps).count '\x7d' := by
    by_cases h : ps = []
    · subst h
      rfl
    · rw [lining_eq h, List.count_cons_of_ne (by decide)]
  have hstart : divStart.count '\x7d' = 0 := by decide
  have hend : divEnd.count '\x7d' = 0 := by decide
  rw [div_canonical, List.count_append, List.count_append, hstart, hend, hvalue, count_lining hps]
  omega

/-- The patterns before the one for interpolations leave every closing brace. -/
def KeepsHoles (ps : List TemplatePart) : Prop :=
  (removeEach (Pattern.templateSyntax.take 10) (canonical.div (value ps))).count '\x7d' =
    (canonical.div (value ps)).count '\x7d'

/-- Either all holes are there when interpolations are removed, or the sign of one is a word. -/
theorem keepsHoles_iff {us : List TemplatePart} (hps : ∀ p ∈ ps, p.IsSound) (htaken : Taken ps qs)
    (hthinned : Thinned isKept qs us)
    (h : removeEach (Pattern.templateSyntax.take 10) (canonical.div (value ps)) =
      canonical.div (value us)) : KeepsHoles ps ↔ qs = ps := by
  rw [KeepsHoles, h, count_div_value hthinned.sound, count_div_value hps, hthinned.holes_eq]
  constructor
  · intro heq
    exact htaken.parts.resolve_right fun hless => absurd heq (Nat.ne_of_lt hless.2)
  · rintro rfl
    rfl

/-- Another pattern takes what begins like a spread. -/
example : ¬ KeepsHoles [hole "...x".toList] := by
  unfold KeepsHoles
  decide +kernel

/-- The signs that the other patterns look for behind an opening brace. -/
def holeMarks : List Char := ['.', '\x7b', '%', '#', '/']

theorem exists_head_of_brace (hps : ∀ p ∈ ps, p.IsSound)
    (hheads : ∀ e, hole e ∈ ps → ∀ c, e.head? = some c → c ∉ holeMarks) (ht : '\x7b' ∉ t)
    (h : x ++ '\x7b' :: z = lining ps ++ t) : ∃ c z', z = c :: z' ∧ c ∉ holeMarks := by
  obtain ⟨e, qs, y, y', hsuffix, hhole, rfl⟩ :=
    exists_hole_of_sign hps (by decide) (by decide) ht h
  have hmem : hole e ∈ ps := hsuffix.subset List.mem_cons_self
  cases y with
  | nil =>
    obtain rfl : y' = e ++ ['\x7d'] := (List.cons.inj hhole).2
    cases e with
    | nil => exact ⟨'\x7d', _, rfl, by decide⟩
    | cons c e => exact ⟨c, _, rfl, hheads _ hmem c rfl⟩
  | cons c y =>
    have hbrace : '\x7b' ∈ e ++ ['\x7d'] := (List.cons.inj hhole).2 ▸ by simp
    exact absurd hbrace (by simp [(hps _ hmem).2.1])

/-- A pattern that looks for one of these signs leaves holes that do not begin with it. -/
theorem removeAll_div_of_heads (hps : ∀ p ∈ ps, p.IsSound)
    (hheads : ∀ e, hole e ∈ ps → ∀ c, e.head? = some c → c ∉ holeMarks) (hr : BeginsWith '\x7b' r)
    (hmark : ∀ before c rest, c ∉ holeMarks →
      Regex.run r (spot before ('\x7b' :: c :: rest) []) some = none) :
    r.removeAll (canonical.div (value ps)) = canonical.div (value ps) := by
  refine Regex.replaceAll_eq_self ?_ hr.run_nil
  rintro x c z hsplit
  by_cases hc : c = '\x7b'
  · subst hc
    rw [div_canonical] at hsplit
    obtain ⟨x', -, hx⟩ := exists_of_append_cons_eq hsplit.symm (by decide)
    have hlining : (' ' :: x') ++ '\x7b' :: z = lining ps ++ divEnd := by
      by_cases hnil : ps = []
      · subst hnil
        have hmem : '\x7b' ∈ divEnd := by
          have hvalue : divEnd = x' ++ '\x7b' :: z := hx
          rw [hvalue]
          simp
        exact absurd hmem (by decide)
      · rw [lining_eq hnil, List.cons_append, List.cons_append, hx]
    obtain ⟨d, z', rfl, hd⟩ := exists_head_of_brace hps hheads (by decide) hlining
    exact hmark _ d _ hd
  · cases hrun : Regex.run r (spot (x.reverse ++ []) (c :: (z ++ [])) []) some with
    | none => rfl
    | some u => exact absurd (Option.some.inj (hr _ _ _ hrun)) hc

theorem removeAll_enclosed_of_heads {opening closing : String} {m : Char} {o : List Char}
    (hps : ∀ p ∈ ps, p.IsSound)
    (hheads : ∀ e, hole e ∈ ps → ∀ c, e.head? = some c → c ∉ holeMarks)
    (ho : opening.toList = '\x7b' :: m :: o) (hm : m ∈ holeMarks) :
    (Pattern.enclosed opening closing).removeAll (canonical.div (value ps)) =
      canonical.div (value ps) := by
  refine removeAll_div_of_heads hps hheads ((beginsWith_text ho).seq).seq fun before c rest hc => ?_
  have hne : c ≠ m := fun h => hc (h ▸ hm)
  exact Refuses.seq (Refuses.seq (refuses_text_of_ne ho hne)) some

/-- No other pattern takes holes whose expressions do not begin with a sign that it looks for. -/
theorem keepsHoles_of_heads (hps : ∀ p ∈ ps, p.IsSound)
    (hheads : ∀ e, hole e ∈ ps → ∀ c, e.head? = some c → c ∉ holeMarks) : KeepsHoles ps := by
  have hself : removeEach (Pattern.templateSyntax.take 6) (canonical.div (value ps)) =
      canonical.div (value ps) := by
    refine removeEach_eq_self ?_
    have hdots : "\x7b...".toList = '\x7b' :: '.' :: ['.', '.'] := rfl
    have hspread := removeAll_div_of_heads hps hheads takesBraces_spread.begins
      fun before c rest hc => by
        have hne : c ≠ '.' := fun h => hc (by rw [h]; decide)
        exact Refuses.seq (Refuses.seq (refuses_text_of_ne hdots hne)) some
    simp only [Pattern.templateSyntax, List.take_succ_cons, List.take_zero, List.forall_mem_cons,
      List.not_mem_nil, false_implies, implies_true, and_true]
    refine ⟨hspread, removeAll_enclosed_of_tags (isInner_value hps) rfl (by decide), ?_, ?_, ?_, ?_⟩
    · exact removeAll_enclosed_of_heads hps hheads rfl (by decide)
    · exact removeAll_enclosed_of_heads hps hheads rfl (by decide)
    · exact removeAll_enclosed_of_heads hps hheads rfl (by decide)
    · exact removeAll_enclosed_of_heads hps hheads rfl (by decide)
  have hsplit : Pattern.templateSyntax.take 10 = Pattern.templateSyntax.take 6 ++
      [fragmentTag, Pattern.directive, Pattern.eventHandler, Pattern.rawContent] := rfl
  obtain ⟨us, hthinned, hwords⟩ := exists_removeEach_words hps
  have hbefore : removeEach (Pattern.templateSyntax.take 10) (canonical.div (value ps)) =
      canonical.div (value us) := by
    rw [hsplit, removeEach_append, hself, hwords]
  exact (keepsHoles_iff hps (Taken.refl hps) hthinned hbefore).mpr rfl

/-- The first word is not taken for template syntax if it stands behind a hole. -/
def StartsKept : List TemplatePart → Prop
  | hole _ :: ps => ∀ w, (words ps).head? = some w → isKept w = true
  | _ => True

/-- A part as it can stand in a template literal, with no braces in an expression. -/
def IsFlat : TemplatePart → Prop
  | word w => IsToken w
  | hole e => IsInner e ∧ '\x7b' ∉ e ∧ '\x7d' ∉ e

instance : DecidablePred IsFlat
  | word w => inferInstanceAs (Decidable (IsToken w))
  | hole e => inferInstanceAs (Decidable (IsInner e ∧ '\x7b' ∉ e ∧ '\x7d' ∉ e))

instance : DecidablePred KeepsHoles := fun _ => inferInstanceAs (Decidable (_ = _))

theorem IsFlat.isSound (h : p.IsFlat) : p.IsSound := by
  cases p with
  | word w => exact Or.inr h
  | hole e => exact h

theorem word_mem_of_mem_words (hw : w ∈ words ps) : word w ∈ ps := by
  induction ps with
  | nil => cases hw
  | cons p ps ih =>
    cases p with
    | word v =>
      rcases List.mem_cons.mp hw with rfl | hw
      · exact List.mem_cons_self
      · exact List.mem_cons_of_mem _ (ih hw)
    | hole e => exact List.mem_cons_of_mem _ (ih hw)

/-! ## Tokens -/

theorem keptWords_subset (ps : List TemplatePart) : keptWords ps ⊆ words ps := by
  cases ps with
  | nil => exact List.Subset.refl _
  | cons p ps =>
    cases p with
    | word w => exact List.cons_subset_cons w (List.filter_subset_self _)
    | hole e => exact List.filter_subset_self _

theorem mem_keptWords (hw : w ∈ words ps) (hkept : isKept w = true) : w ∈ keptWords ps := by
  cases ps with
  | nil => cases hw
  | cons p ps =>
    cases p with
    | word v =>
      rcases List.mem_cons.mp hw with rfl | hw
      · exact List.mem_cons_self
      · exact List.mem_cons_of_mem _ (List.mem_filter.mpr ⟨hw, hkept⟩)
    | hole e => exact List.mem_filter.mpr ⟨hw, hkept⟩

theorem IsSound.isInnerWord (h : (word w).IsSound) : IsInnerWord w :=
  ⟨h.isTagWord.ne_nil, h.isTagWord.blank, h.isInner_text⟩

/-- The tokens that are read of a template literal. -/
theorem exists_readTokens (hps : ∀ p ∈ ps, p.IsSound) :
    ∃ qs, Taken ps qs ∧ (KeepsHoles ps ↔ qs = ps) ∧
      readTokens ⟨.camel, .bracedTemplate⟩ (ps.map text) =
        .ok [(withoutBare (keptWords qs)).map String.ofList] := by
  obtain ⟨qs, us, htaken, hthinned, hbefore, hsanitize⟩ := exists_sanitize hps
  refine ⟨qs, htaken, keepsHoles_iff hps htaken hthinned hbefore, ?_⟩
  have hwords : ∀ w ∈ withoutBare (keptWords qs), (word w).IsSound := fun w hw =>
    htaken.sound _ (word_mem_of_mem_words (keptWords_subset qs (List.mem_of_mem_filter hw)))
  rw [readTokens]
  exact hsanitize ▸ map_read_cleanedDiv (fun w hw => (hwords w hw).isInnerWord)
    fun w hw => (hwords w hw).not_mem_word (by decide) (by decide)

/-- The same words are left without the holes, unless the first one stands behind a hole and is dropped
there. -/
theorem withoutBare_keptWords_eq_iff :
    withoutBare (keptWords ps) = withoutBare (survivors (words ps)) ↔ StartsKept ps := by
  cases ps with
  | nil => exact iff_of_true rfl trivial
  | cons p ps =>
    cases p with
    | word w => exact iff_of_true rfl trivial
    | hole e =>
      rw [keptWords, words, StartsKept]
      · cases hwords : words ps with
        | nil => exact iff_of_true rfl fun w hw => by cases hw
        | cons w ws =>
          by_cases hkept : isKept w = true
          · refine iff_of_true ?_ fun v hv => ?_
            · rw [List.filter_cons_of_pos hkept, survivors]
            · cases hv
              exact hkept
          · refine iff_of_false (fun heq => ?_) fun h => hkept (h w rfl)
            have hbare : (w != ['-'] && w != ['_']) = true := by
              rw [Bool.and_eq_true, bne_iff_ne, bne_iff_ne]
              exact ⟨fun h => hkept (h ▸ rfl), fun h => hkept (h ▸ rfl)⟩
            have hcons : withoutBare (w :: ws.filter isKept) = w :: withoutBare (ws.filter isKept) :=
              List.filter_cons_of_pos hbare
            have hlength := congrArg List.length heq
            rw [List.filter_cons_of_neg hkept, survivors, hcons, List.length_cons] at hlength
            omega
      · exact fun v ws heq => by cases heq

/-- If no expression has braces, the tokens of a template literal are those of its words if and only if
no other pattern takes a hole, and a word that a hole makes the second one is not dropped for it. -/
theorem readTokens_template_iff (hps : ∀ p ∈ ps, p.IsFlat) :
    readTokens ⟨.camel, .bracedTemplate⟩ (ps.map text) = readTokens canonical (words ps) ↔
      KeepsHoles ps ∧ StartsKept ps := by
  have htokens : ∀ w ∈ words ps, IsToken w := fun w hw => hps _ (word_mem_of_mem_words hw)
  obtain ⟨qs, htaken, hkeeps, hread⟩ := exists_readTokens fun p hp => (hps p hp).isSound
  have hinj : Function.Injective String.ofList := fun _ _ => String.ofList_inj.mp
  rw [hread, readTokens_eq canonical htokens, if_neg (by decide), Except.ok.injEq,
    List.singleton_inj, (List.map_injective_iff.mpr hinj).eq_iff, hkeeps]
  rcases htaken.parts with rfl | ⟨hsign, hless⟩
  · rw [withoutBare_keptWords_eq_iff, and_iff_right rfl]
  · -- the sign of a hole is a word here, and none there
    refine iff_of_false (fun heq => ?_) fun h => Nat.ne_of_lt hless (congrArg holes h.1)
    have hmem : ['$'] ∈ withoutBare (survivors (words ps)) :=
      heq ▸ List.mem_filter.mpr ⟨mem_keptWords hsign rfl, rfl⟩
    have htoken := htokens _ ((survivors_sublist _).subset (List.mem_of_mem_filter hmem))
    exact absurd (htoken.mem '$' (by simp)) (by decide)

/-- Blanks, signs and event handlers in an expression do no harm, nor does an empty one. -/
theorem readTokens_template_of_plain_holes :
    let ps := [word "a".toList, hole "x ? y onClick : $z".toList, word "b-c".toList, hole [],
      word "onClick".toList, word "-".toList]
    (∀ p ∈ ps, p.IsFlat) ∧
      readTokens ⟨.camel, .bracedTemplate⟩ (ps.map text) = readTokens canonical (words ps) := by
  intro ps
  have hps : ∀ p ∈ ps, p.IsFlat := by decide +kernel
  have hholes : KeepsHoles ps := by
    refine keepsHoles_of_heads (fun p hp => (hps p hp).isSound) fun e he c hc => ?_
    simp only [ps, List.mem_cons, reduceCtorEq, hole.injEq, List.not_mem_nil, false_or, or_false] at he
    rcases he with rfl | rfl <;> cases hc
    decide
  exact ⟨hps, (readTokens_template_iff hps).mpr ⟨hholes, trivial⟩⟩

/-- A hole whose expression has braces is taken in part only. -/
theorem readTokens_template_of_nested_hole :
    let ps := [word "a".toList, hole "f(\x7bb\x7d)".toList, word "c".toList]
    (∀ w ∈ words ps, IsToken w) ∧ IsInner "f(\x7bb\x7d)".toList ∧
      readTokens ⟨.camel, .bracedTemplate⟩ (ps.map text) = .ok [["a", ")\x7d", "c"]] ∧
      readTokens canonical (words ps) = .ok [["a", "c"]] := by
  intro ps
  have hopaque : dropOpaque (div ⟨.camel, .bracedTemplate⟩ (value ps)) = canonical.div (value ps) :=
    dropOpaque_template (by decide +kernel)
  have hsyntax : dropTemplates (canonical.div (value ps)) = canonical.div "a )\x7d c".toList := by
    decide +kernel
  have htidy : tidyValues (openComponents (unifyClasses (canonical.div "a )\x7d c".toList))) =
      canonical.div "a )\x7d c".toList := by decide +kernel
  have hread : (Node.read (canonical.div "a )\x7d c".toList)).map (List.map Node.classTokens) =
      .ok [["a", ")\x7d", "c"]] := by decide +kernel
  have htemplate : readTokens ⟨.camel, .bracedTemplate⟩ (ps.map text) = .ok [["a", ")\x7d", "c"]] := by
    have hsanitize : sanitize (div ⟨.camel, .bracedTemplate⟩ (value ps)) =
        canonical.div "a )\x7d c".toList := by
      rw [sanitize, hopaque, hsyntax, htidy]
    exact (congrArg (fun s => (Node.read s).map (List.map Node.classTokens)) hsanitize).trans hread
  exact ⟨by decide +kernel, by decide +kernel, htemplate, by decide +kernel⟩

end TemplatePart

end BlockMarkup.Markup
