import BlockMarkup.Proofs.Naming.Shape
import BlockMarkup.Proofs.Regex.Written

/-! # The written forms of name patterns

A pattern for names is built together with its written form. Read as a pattern, the written form matches
just the names that the pattern matches (`readsBack_block`, `readsBack_element`, `readsBack_modifier`,
`readsBack_value`). A literal text in it stands for itself, whatever characters it
has, so the prefix of modifiers is a text like any other (`modifierMatches_iff_append`).
-/

namespace BlockMarkup

open Regex (Part Token CutsInto ReadsAs IsRanges runParts joinParts signs)

namespace LetterClass

/-- The ranges can be written down as they are. -/
theorem isRanges : IsRanges lower.ranges ∧ IsRanges upper.ranges ∧ IsRanges lowerDigit.ranges ∧
    IsRanges alphaDigit.ranges := by
  refine ⟨⟨by decide, by decide⟩, ⟨by decide, by decide⟩, ⟨by decide, by decide⟩, by decide, by decide⟩

theorem cutsInto_source {l : LetterClass} (h : IsRanges l.ranges) :
    CutsInto l.source.toList (Regex.setTokens l.ranges) := by
  have hsource : l.source.toList =
      '[' :: (l.ranges.flatMap (fun r => [r.1, '-', r.2]) ++ [']']) := by
    simp [source, String.toList_join, List.flatMap_map]
  have htokens : Regex.setTokens l.ranges = l.source.toList.map .plain := by
    rw [hsource]
    simp [Regex.setTokens, List.map_flatMap]
    rfl
  rw [htokens]
  refine Regex.cutsInto_plain _ fun hmem => ?_
  rw [hsource] at hmem
  simp only [List.mem_cons, List.mem_append, List.mem_flatMap, List.not_mem_nil, or_false] at hmem
  rcases hmem with hopen | ⟨range, hrange, hlow | hhyphen | hhigh⟩ | hclose
  · exact absurd hopen (by decide)
  · exact (h.2 range hrange).1 (hlow ▸ List.mem_cons_self)
  · exact absurd hhyphen (by decide)
  · exact (h.2 range hrange).2.1 (hhigh ▸ List.mem_cons_self)
  · exact absurd hclose (by decide)

end LetterClass

namespace NamePattern

open LetterClass

variable {p q : NamePattern} {ps qs parts : List Part} {l : LetterClass} {case : WordCase}

/-- The written form reads as these parts, and they run as the pattern does. -/
structure SpelledAs (p : NamePattern) (parts : List Part) : Prop where
  reads : ∃ ts, CutsInto p.source.toList ts ∧ ReadsAs ts parts
  runs : ∀ s k, runParts parts s k = p.regex.run s k

theorem SpelledAs.append (hp : p.SpelledAs ps) (hq : q.SpelledAs qs) :
    (p ++ q).SpelledAs (ps ++ qs) where
  reads := by
    obtain ⟨ts, hts, hps⟩ := hp.reads
    obtain ⟨us, hus, hqs⟩ := hq.reads
    have hsource : (p ++ q).source.toList = p.source.toList ++ q.source.toList := String.toList_append
    exact ⟨ts ++ us, hsource ▸ hts.append hus, hps.append hqs⟩
  runs := by
    intro s k
    rw [Regex.runParts_append, hp.runs]
    exact congrArg (p.regex.run s) (funext fun t => hq.runs t k)

theorem spelledAs_once (h : IsRanges l.ranges) : l.once.SpelledAs [⟨.other, .one l.set⟩] where
  reads := ⟨_, cutsInto_source h, (Regex.isAtom_set h).readsAs⟩
  runs := fun _ _ => rfl

theorem spelledAs_star (h : IsRanges l.ranges) :
    l.star.SpelledAs [⟨.repetition, .many l.set⟩] where
  reads := by
    have hsource : l.star.source.toList = l.source.toList ++ ['*'] := String.toList_append
    refine ⟨_, hsource ▸ (cutsInto_source h).append (Regex.cutsInto_plain _ (by decide)), ?_⟩
    exact (Regex.isAtom_set h).repeat Regex.isMark_star
  runs := fun _ _ => rfl

theorem spelledAs_plus (h : IsRanges l.ranges) :
    l.plus.SpelledAs [⟨.repetition, .many1 l.set⟩] where
  reads := by
    have hsource : l.plus.source.toList = l.source.toList ++ ['+'] := String.toList_append
    refine ⟨_, hsource ▸ (cutsInto_source h).append (Regex.cutsInto_plain _ (by decide)), ?_⟩
    exact (Regex.isAtom_set h).repeat Regex.isMark_plus
  runs := fun _ _ => rfl

theorem spelledAs_separator {c : Char} (hc : c ∉ '\\' :: signs) :
    (separator c).SpelledAs [⟨.other, .one (.single c)⟩] where
  reads := by
    rw [List.mem_cons, not_or] at hc
    have hsource : (separator c).source.toList = [c] := String.toList_singleton c
    have hcut : CutsInto [c] [.plain c] := Regex.cutsInto_plain _ (mt List.mem_singleton.mp (Ne.symm hc.1))
    exact ⟨_, hsource ▸ hcut, (Regex.isAtom_plain hc.2).readsAs⟩
  runs := fun _ _ => rfl

/-! ## Literal texts -/

/-- One part for each character. -/
def literalParts (text : List Char) : List Part := text.map fun c => ⟨.other, .one (.single c)⟩

theorem runParts_literalParts (text : List Char) (s : Regex.Cursor)
    (k : Regex.Cursor → Option Regex.Cursor) :
    runParts (literalParts text) s k = (Regex.chars text).run s k := by
  induction text generalizing s with
  | nil => rfl
  | cons c text ih =>
    have hparts : runParts (literalParts (c :: text)) s k =
        (Regex.one (.single c)).run s fun t => runParts (literalParts text) t k := rfl
    rw [hparts, funext fun t => ih t]
    cases text with
    | nil => rfl
    | cons d text => rfl

/-- A character that needs a backslash is no letter or digit, so it stands for itself behind one; the
others stand for themselves without. -/
theorem exists_reads_escape (text : List Char) : ∃ ts,
    CutsInto (text.flatMap fun c => if needsEscape c then ['\\', c] else [c]) ts ∧
      ReadsAs ts (literalParts text) := by
  have hescaped : ∀ c, needsEscape c = true → c.isAlphanum = false := by
    intro c hc
    rw [needsEscape, List.contains_iff_mem] at hc
    have hnone := List.any_eq_false (p := Char.isAlphanum) |>.mp (by decide) c hc
    exact Bool.eq_false_iff.mpr hnone
  have hplain : ∀ c ∈ '\\' :: signs, needsEscape c = true := List.all_eq_true.mp (by decide)
  induction text with
  | nil => exact ⟨[], Regex.cutsInto_nil, Regex.readsAs_nil⟩
  | cons c text ih =>
    obtain ⟨ts, hcut, hreads⟩ := ih
    rw [List.flatMap_cons]
    cases hc : needsEscape c with
    | true =>
      rw [if_pos rfl]
      exact ⟨_, (Regex.cutsInto_escaped c).append hcut,
        (Regex.isAtom_escaped (hescaped c hc)).readsAs.append hreads⟩
    | false =>
      have hsign : c ∉ '\\' :: signs := fun h => by simp [hplain c h] at hc
      rw [List.mem_cons, not_or] at hsign
      rw [if_neg (by decide)]
      exact ⟨_, (Regex.cutsInto_plain _ (mt List.mem_singleton.mp (Ne.symm hsign.1))).append hcut,
        (Regex.isAtom_plain hsign.2).readsAs.append hreads⟩

theorem spelledAs_literal (text : String) : (literal text).SpelledAs (literalParts text.toList) where
  reads := by
    have hsource : (literal text).source.toList =
        text.toList.flatMap fun c => if needsEscape c then ['\\', c] else [c] := String.toList_ofList
    rw [hsource]
    exact exists_reads_escape text.toList
  runs := runParts_literalParts text.toList

/-! ## Alternatives, repetitions and whole names -/

theorem SpelledAs.run_joinParts (h : p.SpelledAs parts) : (joinParts parts.reverse).run = p.regex.run :=
  funext fun s => funext fun k => (Regex.run_joinParts parts s k).trans (h.runs s k)

theorem SpelledAs.either (hp : p.SpelledAs ps) (hq : q.SpelledAs qs) :
    (p.either q).SpelledAs [⟨.other, .alt (joinParts ps.reverse) (joinParts qs.reverse)⟩] where
  reads := by
    obtain ⟨ts, hts, hps⟩ := hp.reads
    obtain ⟨us, hus, hqs⟩ := hq.reads
    refine ⟨_, ?_, (hps.isAtom_either hqs).readsAs⟩
    have hsource : (p.either q).source.toList =
        ['(', '?', ':'] ++ (p.source.toList ++ (['|'] ++ (q.source.toList ++ [')']))) := by
      simp [NamePattern.either]
    have htokens : Regex.groupTokens (ts ++ .plain '|' :: us) =
        [.plain '(', .plain '?', .plain ':'] ++ (ts ++ ([.plain '|'] ++ (us ++ [.plain ')']))) := by
      simp [Regex.groupTokens]
    rw [hsource, htokens]
    have hopen := Regex.cutsInto_plain ['(', '?', ':'] (by decide)
    have hbar := Regex.cutsInto_plain ['|'] (by decide)
    have hclose := Regex.cutsInto_plain [')'] (by decide)
    exact hopen.append (hts.append (hbar.append (hus.append hclose)))
  runs := by
    intro s k
    have hrun : (p.either q).regex.run s k =
        (Regex.alt p.regex q.regex).run s k := rfl
    rw [hrun, Regex.run_alt, ← hp.run_joinParts, ← hq.run_joinParts, ← Regex.run_alt]
    rfl

/-- A pattern of two parts or more is repeated as a group. -/
theorem SpelledAs.times (h : p.SpelledAs parts) (hparts : 2 ≤ parts.length) {least most : Nat}
    (hbounds : least ≤ most) (hmost : most < Regex.countLimit) : (p.times least most).SpelledAs
      [⟨.repetition, .loop (joinParts parts.reverse) least (some most) .greedy⟩] where
  reads := by
    obtain ⟨ts, hts, hparts'⟩ := h.reads
    have hrepeated := hparts'.isAtom_group.repeat (Regex.isMark_bounds hbounds hmost)
    rw [Regex.repeated_joinParts hparts] at hrepeated
    refine ⟨_, ?_, hrepeated⟩
    have hsource : (p.times least most).source.toList = ['(', '?', ':'] ++ (p.source.toList ++
        ([')', '\x7b'] ++ (Nat.toDigits 10 least ++ ([','] ++ (Nat.toDigits 10 most ++ ['\x7d']))))) := by
      simp [NamePattern.times]
    have htokens : Regex.groupTokens ts ++ Regex.boundsTokens least most =
        [.plain '(', .plain '?', .plain ':'] ++ (ts ++ ([.plain ')', .plain '\x7b'] ++
          ((Nat.toDigits 10 least).map .plain ++ ([.plain ','] ++
            ((Nat.toDigits 10 most).map .plain ++ [.plain '\x7d']))))) := by
      simp [Regex.groupTokens, Regex.boundsTokens, Regex.numberTokens]
    rw [hsource, htokens]
    have hopen := Regex.cutsInto_plain ['(', '?', ':'] (by decide)
    have hclose := Regex.cutsInto_plain [')', '\x7b'] (by decide)
    have hcomma := Regex.cutsInto_plain [','] (by decide)
    have hbrace := Regex.cutsInto_plain ['\x7d'] (by decide)
    have hnumber : ∀ k, CutsInto (Nat.toDigits 10 k) ((Nat.toDigits 10 k).map .plain) := by
      intro k
      refine Regex.cutsInto_plain _ fun hmem => ?_
      -- a backslash is no digit
      exact absurd (Nat.isDigit_of_mem_toDigits (by decide) (by decide) hmem) (by decide)
    exact hopen.append (hts.append (hclose.append ((hnumber least).append (hcomma.append
      ((hnumber most).append hbrace)))))
  runs := by
    intro s k
    have hrun : (p.times least most).regex.run s k =
        Regex.iterateGreedy p.regex.run least (some most) (least + 2 * s.after.length + 2) 0 none s k := rfl
    rw [hrun, ← h.run_joinParts]
    rfl

theorem SpelledAs.whole (h : p.SpelledAs parts) : p.whole.SpelledAs
    (⟨.condition, .anchor .textStart⟩ :: (parts ++ [⟨.condition, .anchor .textEndOrLastBreak⟩])) where
  reads := by
    obtain ⟨ts, hts, hparts⟩ := h.reads
    have hsource : p.whole.source.toList = ['^'] ++ (p.source.toList ++ ['$']) := by
      simp [NamePattern.whole]
    have hstart : CutsInto ['^'] [.plain '^'] := Regex.cutsInto_plain _ (by decide)
    have hend : CutsInto ['$'] [.plain '$'] := Regex.cutsInto_plain _ (by decide)
    exact ⟨_, hsource ▸ hstart.append (hts.append hend),
      Regex.readsAs_textStart.append (hparts.append Regex.readsAs_textEnd)⟩
  runs := by
    intro s k
    have hrun : p.whole.regex.run s k = (Regex.anchor .textStart).run s fun t =>
        p.regex.run t fun u => (Regex.anchor .textEndOrLastBreak).run u k := rfl
    have hparts : ∀ t, runParts (parts ++ [⟨.condition, .anchor .textEndOrLastBreak⟩]) t k =
        p.regex.run t fun u => (Regex.anchor .textEndOrLastBreak).run u k := by
      intro t
      rw [Regex.runParts_append, h.runs]
      rfl
    rw [hrun, runParts, funext hparts]

/-- The written form can be read, and what is read matches the names that the pattern matches. -/
def ReadsBack (p : NamePattern) : Prop :=
  ∃ r, Regex.read p.source.toList = .ok r ∧ ∀ name : String, r.matchesIn name.toList = p.matchesName name

theorem SpelledAs.readsBack (h : p.SpelledAs parts) : p.ReadsBack := by
  obtain ⟨ts, hcut, hreads⟩ := h.reads
  refine ⟨_, Regex.read_of_readsAs hcut hreads, fun name => ?_⟩
  exact Regex.matchesIn_congr (fun s k => (Regex.run_joinParts parts s k).trans (h.runs s k)) _

/-! ## The patterns for names -/

theorem spelledAs_lowerDigits : lowerDigit.plus.SpelledAs [⟨.repetition, .many1 lowerDigit.set⟩] :=
  spelledAs_plus isRanges.2.2.1

theorem not_sign_of_separator {sep : Char} (hsep : case.separator? = some sep) : sep ∉ '\\' :: signs := by
  cases case with
  | kebab | snake =>
    cases hsep
    decide
  | camel | pascal => cases hsep

theorem spelledAs_separatedWord {sep : Char} (hsep : case.separator? = some sep) :
    ∃ parts, 2 ≤ parts.length ∧ (separator sep ++ lowerDigit.plus).SpelledAs parts :=
  ⟨_, by simp, (spelledAs_separator (not_sign_of_separator hsep)).append spelledAs_lowerDigits⟩

theorem spelledAs_capitalWord : ∃ parts, 2 ≤ parts.length ∧ capitalWord.SpelledAs parts :=
  ⟨_, by simp, (spelledAs_once isRanges.2.1).append (spelledAs_star isRanges.2.2.2)⟩

theorem spelledAs_firstWord (h : IsRanges l.ranges) :
    ∃ parts, (l.once ++ lowerDigit.star).SpelledAs parts :=
  ⟨_, (spelledAs_once h).append (spelledAs_star isRanges.2.2.1)⟩

theorem spelledAs_anyWord (h : IsRanges l.ranges) :
    ∃ parts, (l.once ++ alphaDigit.star).SpelledAs parts :=
  ⟨_, (spelledAs_once h).append (spelledAs_star isRanges.2.2.2)⟩

theorem readsBack_element (case : WordCase) : (element case).ReadsBack := by
  cases case with
  | pascal =>
    obtain ⟨parts, h⟩ := spelledAs_firstWord isRanges.2.1
    exact h.whole.readsBack
  | kebab | snake | camel =>
    obtain ⟨parts, h⟩ := spelledAs_firstWord isRanges.1
    exact h.whole.readsBack

theorem readsBack_block (case : WordCase) {limit : Nat} (hlimit : limit ≤ Regex.countLimit) :
    (block case limit).ReadsBack := by
  have hleast : 1 ≤ (max 1 ((limit : Int) - 1)).toNat := by omega
  have hmost : (max 1 ((limit : Int) - 1)).toNat < Regex.countLimit := by
    have hpositive : 1 < Regex.countLimit := by decide
    omega
  have hwords : ∀ {l : LetterClass} {word : NamePattern}, IsRanges l.ranges →
      (∃ parts, 2 ≤ parts.length ∧ word.SpelledAs parts) → (l.once ++ lowerDigit.star ++
        word.times 1 (max 1 ((limit : Int) - 1)).toNat).whole.ReadsBack := by
    rintro l word hl ⟨parts, hparts, hword⟩
    obtain ⟨first, hfirst⟩ := spelledAs_firstWord hl
    exact (hfirst.append (hword.times hparts hleast hmost)).whole.readsBack
  cases case with
  | kebab =>
    have hkebab : WordCase.kebab.separator? = some '-' := rfl
    exact hwords isRanges.1 (spelledAs_separatedWord hkebab)
  | snake =>
    have hsnake : WordCase.snake.separator? = some '_' := rfl
    exact hwords isRanges.1 (spelledAs_separatedWord hsnake)
  | camel => exact hwords isRanges.1 spelledAs_capitalWord
  | pascal => exact hwords isRanges.2.1 spelledAs_capitalWord

theorem spelledAs_modifierWords (case : WordCase) : ∃ parts, (modifierWords case).SpelledAs parts := by
  have hseparated : ∀ {sep : Char}, case.separator? = some sep → ∃ parts,
      (lowerDigit.plus.either (lowerDigit.plus ++ separator sep ++ lowerDigit.plus)).SpelledAs parts := by
    intro sep hsep
    have hword := spelledAs_separator (not_sign_of_separator hsep)
    exact ⟨_, spelledAs_lowerDigits.either
      ((spelledAs_lowerDigits.append hword).append spelledAs_lowerDigits)⟩
  have hjoined : ∀ {l : LetterClass}, IsRanges l.ranges → ∃ parts, ((l.once ++ alphaDigit.star).either
      (l.once ++ lowerDigit.star ++ capitalWord)).SpelledAs parts := by
    intro l hl
    obtain ⟨one, hone⟩ := spelledAs_anyWord hl
    obtain ⟨first, hfirst⟩ := spelledAs_firstWord hl
    obtain ⟨second, -, hsecond⟩ := spelledAs_capitalWord
    exact ⟨_, hone.either (hfirst.append hsecond)⟩
  cases case with
  | kebab | snake => exact hseparated rfl
  | camel => exact hjoined isRanges.1
  | pascal => exact hjoined isRanges.2.1

/-- Whatever the prefix is. -/
theorem readsBack_modifier (case : WordCase) (lead : String) : (modifier case lead).ReadsBack := by
  obtain ⟨parts, h⟩ := spelledAs_modifierWords case
  exact ((spelledAs_literal lead).append h).whole.readsBack

theorem readsBack_value (case : WordCase) {limit : Nat} (hlimit : limit ≤ Regex.countLimit) :
    (value case limit).ReadsBack := by
  have hwords : ∀ {first word : NamePattern}, (∃ parts, first.SpelledAs parts) →
      (∃ parts, 2 ≤ parts.length ∧ word.SpelledAs parts) →
        (furtherWords first word limit).whole.ReadsBack := by
    rintro first word ⟨_, hfirst⟩ ⟨parts, hparts, hword⟩
    rw [furtherWords]
    split
    · have hmost : ((limit : Int) - 1).toNat < Regex.countLimit := by omega
      exact (hfirst.append (hword.times hparts (Nat.zero_le _) hmost)).whole.readsBack
    · exact hfirst.whole.readsBack
  cases case with
  | kebab =>
    have hkebab : WordCase.kebab.separator? = some '-' := rfl
    exact hwords ⟨_, spelledAs_lowerDigits⟩ (spelledAs_separatedWord hkebab)
  | snake =>
    have hsnake : WordCase.snake.separator? = some '_' := rfl
    exact hwords ⟨_, spelledAs_lowerDigits⟩ (spelledAs_separatedWord hsnake)
  | camel => exact hwords (spelledAs_anyWord isRanges.1) spelledAs_capitalWord
  | pascal => exact hwords (spelledAs_anyWord isRanges.2.1) spelledAs_capitalWord

end NamePattern

/-! ## Prefixes of modifiers -/

namespace NamingOptions

variable {n : NamingOptions}

theorem modifierMatches_iff (h : n.custom.modifier = none) (name : String) :
    n.modifierMatches name = true ↔ ∃ body, n.modifierCase.OfWords 2 body ∧
      UpToBreak (n.modifierPrefix.toList ++ body) name.toList := by
  rw [modifierMatches, h]
  exact NamePattern.matchesName_modifier_shape

/-- The prefix stands for itself: what is read from the written pattern matches the names that begin with
the prefix and go on as modifiers without one. -/
theorem modifierMatches_iff_append (h : n.custom.modifier = none) (name : String) :
    (∃ r, Regex.read (NamePattern.modifier n.modifierCase n.modifierPrefix).source.toList = .ok r ∧
      r.matchesIn name.toList = n.modifierMatches name) ∧
    (n.modifierMatches name = true ↔ ∃ rest, name = n.modifierPrefix ++ rest ∧
      ({ n with modifierPrefix := "" } : NamingOptions).modifierMatches rest = true) := by
  constructor
  · obtain ⟨r, hr, hmatches⟩ := NamePattern.readsBack_modifier n.modifierCase n.modifierPrefix
    refine ⟨r, hr, ?_⟩
    rw [hmatches, modifierMatches, h]
    rfl
  · have hbare : ∀ rest, ({ n with modifierPrefix := "" } : NamingOptions).modifierMatches rest = true ↔
        ∃ body, n.modifierCase.OfWords 2 body ∧ UpToBreak body rest.toList :=
      modifierMatches_iff (n := { n with modifierPrefix := "" }) h
    rw [modifierMatches_iff h]
    constructor
    · rintro ⟨body, hbody, hname⟩
      obtain ⟨rest, hsplit, hrest⟩ := hname.exists_append
      refine ⟨String.ofList rest, ?_, (hbare _).mpr ⟨body, hbody, ?_⟩⟩
      · rw [← String.toList_inj, String.toList_append, String.toList_ofList, hsplit]
      · rwa [String.toList_ofList]
    · rintro ⟨rest, rfl, hrest⟩
      obtain ⟨body, hbody, hrest⟩ := (hbare rest).mp hrest
      refine ⟨body, hbody, ?_⟩
      rw [String.toList_append]
      exact hrest.append_left _

theorem modifierMatches_iff_append_signs :
    ({ modifierPrefix := "(a|b)*\n" } : NamingOptions).modifierMatches "(a|b)*\nlarge" = true ∧
      ({ modifierPrefix := "(a|b)*\n" } : NamingOptions).modifierMatches "alarge" = false := by
  have hlarge := modifierMatches_iff_append (n := { modifierPrefix := "(a|b)*\n" }) rfl "(a|b)*\nlarge"
  have hother := modifierMatches_iff_append (n := { modifierPrefix := "(a|b)*\n" }) rfl "alarge"
  refine ⟨hlarge.2.mpr ⟨"large", by decide, by decide +kernel⟩, Bool.eq_false_iff.mpr fun h => ?_⟩
  obtain ⟨rest, hrest, -⟩ := hother.2.mp h
  have hfirst := congrArg (fun name => name.toList.head?) hrest
  simp at hfirst

end NamingOptions

end BlockMarkup
