import BlockMarkup.Proofs.Regex.InStep

/-! # Reading with case disregarded

The flag that disregards case shows in a pattern as read in the rules for case alone: with it or without it,
the same writings are read, and what is read is the same but for these rules (`alikeReadings`). Where a
writing turns the flag on by itself, as it can only before anything else, the two readings are one.

The reader is followed step by step (`paired_readSequence`, `paired_readGroup`), once for the parts of a
pattern that cannot touch the settings of the whole (`inStepWithin`), once for its beginning, which can
(`paired_readAlternatives_begun`).
-/

namespace BlockMarkup.Regex

open Reader

/-! ## Rules for case -/

/-- The set with another rule for case. -/
def CharSet.mapRule (g : CaseRule → CaseRule) (s : CharSet) : CharSet := { s with rule := g s.rule }

/-- The pattern with other rules for case. -/
def mapRules (g : CaseRule → CaseRule) : Regex → Regex
  | .empty => .empty
  | .one s => .one (s.mapRule g)
  | .span s least most greed => .span (s.mapRule g) least most greed
  | .anchor a => .anchor a
  | .seq a b => .seq (mapRules g a) (mapRules g b)
  | .alt a b => .alt (mapRules g a) (mapRules g b)
  | .loop r least most greed => .loop (mapRules g r) least most greed
  | .group i r => .group i (mapRules g r)
  | .backref i rule => .backref i (g rule)
  | .look behind negated r => .look behind negated (mapRules g r)
  | .atomic r => .atomic (mapRules g r)
  | .ifGroup i yes no => .ifGroup i (mapRules g yes) (mapRules g no)

/-- The part with other rules for case. -/
def Part.mapRules (g : CaseRule → CaseRule) (p : Part) : Part := ⟨p.kind, p.regex.mapRules g⟩

/-- What the readings under settings and under those that disregard case have in common: all, if case is
disregarded anyway, and else all but the rules for case. -/
def Flags.common (f : Flags) (rule : CaseRule) : CaseRule := if f.ignoreCase then rule else .exact

section Rules

variable {g : CaseRule → CaseRule} {r r' : Regex} {ps ps' : List Part}

theorem width_mapRules (widths : Nat → Nat × Option Nat) :
    (r.mapRules g).width widths = r.width widths := by
  induction r with
  | empty | anchor | one | span | backref | look => rfl
  | seq a b iha ihb | alt a b iha ihb | ifGroup i a b iha ihb =>
    simp only [mapRules, width, iha, ihb]
  | loop r least most greed ih | group i r ih | atomic r ih => simp only [mapRules, width, ih]

theorem mapRules_repeated (least : Nat) (most : Option Nat) (greed : Greed) :
    (repeated r least most greed).mapRules g = repeated (r.mapRules g) least most greed := by
  cases r <;> rfl

theorem mapRules_joinParts : (joinParts ps).mapRules g = joinParts (ps.map (Part.mapRules g)) := by
  cases ps with
  | nil => rfl
  | cons p ps =>
    rw [List.map_cons, joinParts, joinParts, List.foldl_map]
    exact (List.foldl_hom (mapRules g) fun _ _ => rfl).symm

end Rules

section Steps

variable {o s : ReadState} {f : Flags} {b leading : Bool} {r r' : Regex} {ps ps' : List Part}
  {c : Char} {fuel : Nat}

/-- What is read is the same up to what the settings leave of the rules for case. -/
def Alike (o : ReadState) (r r' : Regex) : Prop := r.mapRules o.flags.common = r'.mapRules o.flags.common

/-- The same for the parts of a sequence. -/
def AlikeParts (o : ReadState) (ps ps' : List Part) : Prop :=
  ps.map (Part.mapRules o.flags.common) = ps'.map (Part.mapRules o.flags.common)

/-- If the whole disregards case anyway, the other reader has the settings of the first one. -/
def Covered (o : ReadState) (f : Flags) (b : Bool) : Prop :=
  o.flags.ignoreCase = true → b = f.ignoreCase

theorem Covered.caseRule (h : Covered o f b) :
    o.flags.common (f.withCase b).caseRule = o.flags.common f.caseRule := by
  unfold Flags.common
  split
  · rw [h ‹_›]
    rfl
  · rfl

theorem Covered.within (h : Covered o f b) (on off : Flags) :
    ∃ b', (f.withCase b).within on off = (f.within on off).withCase b' ∧
      Covered o (f.within on off) b' := by
  refine ⟨(b || on.ignoreCase) && !off.ignoreCase, ?_, fun ho => ?_⟩
  · unfold Flags.within Flags.withCase
    split <;> rfl
  · rw [h ho]
    unfold Flags.within
    split <;> rfl

theorem alike_refl : Alike o r r := rfl

theorem Alike.cons {kind : PartKind} (h : Alike o r r') (hps : AlikeParts o ps ps') :
    AlikeParts o (⟨kind, r⟩ :: ps) (⟨kind, r'⟩ :: ps') := by
  unfold AlikeParts at hps ⊢
  rw [List.map_cons, List.map_cons, hps]
  exact congrArg (fun x => Part.mk kind x :: ps'.map (Part.mapRules o.flags.common)) h

theorem alike_one {items : List SetItem} {negated : Bool} (h : Covered o f b) :
    Alike o (.one ⟨items, negated, f.caseRule⟩) (.one ⟨items, negated, (f.withCase b).caseRule⟩) := by
  unfold Alike
  rw [mapRules, mapRules, CharSet.mapRule, CharSet.mapRule, h.caseRule]

theorem alikeParts_escapePart {e : Escape} (h : Covered o f b) (hps : AlikeParts o ps ps') :
    AlikeParts o (escapePart f e :: ps) (escapePart (f.withCase b) e :: ps') := by
  cases e with
  | code n => exact (alike_one h).cons hps
  | kind k negated => exact (alike_one h).cons hps
  | condition a => exact alike_refl.cons hps
  | reference i =>
    refine Alike.cons ?_ hps
    unfold Alike
    rw [mapRules, mapRules, h.caseRule]

theorem AlikeParts.joinParts (h : AlikeParts o ps ps') : Alike o (joinParts ps) (joinParts ps') := by
  unfold Alike
  rw [mapRules_joinParts, mapRules_joinParts, h]

theorem Alike.width_eq (h : Alike o r r') (widths : Nat → Nat × Option Nat) :
    r.width widths = r'.width widths := by
  rw [← width_mapRules, h, width_mapRules]

/-! ## Readers of parts -/

theorem inStep_readSet (h : Covered o f b) :
    InStep o (fun s s' => Alike o (.one s) (.one s')) (readSet f) (readSet (f.withCase b)) := by
  unfold readSet
  refine steady_accept.bind fun negated => Paired.get_bind fun s hs => ?_
  exact steady_readSetItems.bind fun items => inStep_pure (alike_one h)

theorem inStep_repeatLast {least : Nat} {most : Option Nat} (hps : AlikeParts o ps ps') :
    InStep o (fun qs qs' => qs ≠ [] ∧ AlikeParts o qs qs') (repeatLast f ps least most)
      (repeatLast (f.withCase b) ps' least most) := by
  unfold repeatLast
  cases ps with
  | nil =>
    obtain rfl : ps' = [] := List.map_eq_nil_iff.mp hps.symm
    exact paired_refuse
  | cons p ps =>
    cases ps' with
    | nil => exact absurd hps (by simp [AlikeParts])
    | cons p' ps' =>
      obtain ⟨hp, hps⟩ := List.cons.inj hps
      obtain ⟨hkind, hregex⟩ := Part.mk.inj hp
      dsimp only
      rw [← hkind]
      refine Paired.guard fun _ => steady_readGreed.bind fun greed => ?_
      have hrepeated : Alike o (repeated p.regex least most greed) (repeated p'.regex least most greed) := by
        unfold Alike
        rw [mapRules_repeated, mapRules_repeated, hregex]
      refine Paired.when (steady_modify (fun s hs => ⟨hs.suffix, hs.flags⟩) fun _ => rfl) ?_
      exact inStep_pure ⟨List.cons_ne_nil _ _, hrepeated.cons hps⟩

/-- The two know the same widths. -/
theorem inStep_widthOf (h : Alike o r r') : InStep o Eq (widthOf r) (widthOf r') := by
  unfold widthOf
  refine Paired.get_bind fun s hs => inStep_pure ?_
  rw [h.width_eq]
  rfl

theorem inStep_closeGroup {index : Nat} (h : Alike o r r') :
    InStep o Eq (closeGroup index r) (closeGroup index r') := by
  unfold closeGroup
  refine (inStep_widthOf h).bind ?_
  rintro w _ rfl
  exact steady_modify (fun s hs => ⟨hs.suffix, hs.flags⟩) fun _ => rfl

theorem inStep_lookBehind {negated : Bool} (h : Alike o r r') :
    InStep o (Alike o) (lookBehind negated r) (lookBehind negated r') := by
  unfold lookBehind
  refine (inStep_widthOf h).bind ?_
  rintro ⟨least, most⟩ _ rfl
  refine Paired.when (steady_modify (fun s hs => ⟨hs.suffix, hs.flags⟩) fun _ => rfl) ?_
  exact inStep_pure (congrArg (Regex.look (some least) negated) h)

/-! ## Sequences -/

/-- One step of a sequence. -/
theorem paired_readSequence
    {P : Except ReadError (Regex × ReadState) → Except ReadError (Regex × ReadState) → Prop}
    [Refusable o P] (hf : Covered o f b) (hps : AlikeParts o ps ps')
    (hend : Paired o P (pure (joinParts ps)) (pure (joinParts ps')))
    (hmore : ∀ qs qs', AlikeParts o qs qs' → (qs = [] → ps = []) →
      Paired o P (readSequence fuel f leading qs) (readSequence fuel (f.withCase b) leading qs'))
    (hgroup : Paired o P
      (readGroup fuel f leading ps >>= fun
        | .inl f => readSequence fuel f leading ps
        | .inr none => readSequence fuel f leading ps
        | .inr (some r) => readSequence fuel f leading (⟨.other, r⟩ :: ps))
      (readGroup fuel (f.withCase b) leading ps' >>= fun
        | .inl f => readSequence fuel f leading ps'
        | .inr none => readSequence fuel (f.withCase b) leading ps'
        | .inr (some r) => readSequence fuel (f.withCase b) leading (⟨.other, r⟩ :: ps'))) :
    Paired o P (readSequence (fuel + 1) f leading ps)
      (readSequence (fuel + 1) (f.withCase b) leading ps') := by
  rw [readSequence, readSequence]
  -- a unit adds a part, repeats the last one, or leaves the parts as they are
  have hother : ∀ r r', Alike o r r' → Paired o P (readSequence fuel f leading (⟨.other, r⟩ :: ps))
      (readSequence fuel (f.withCase b) leading (⟨.other, r'⟩ :: ps')) :=
    fun r r' hr => hmore _ _ (hr.cons hps) fun h => absurd h (List.cons_ne_nil _ _)
  have hcondition : ∀ a, Paired o P (readSequence fuel f leading (⟨.condition, .anchor a⟩ :: ps))
      (readSequence fuel (f.withCase b) leading (⟨.condition, .anchor a⟩ :: ps')) :=
    fun a => hmore _ _ (alike_refl.cons hps) fun h => absurd h (List.cons_ne_nil _ _)
  have hrepeat : ∀ least most, Paired o P
      (repeatLast f ps least most >>= readSequence fuel f leading)
      (repeatLast (f.withCase b) ps' least most >>= readSequence fuel (f.withCase b) leading) :=
    fun least most => (inStep_repeatLast hps).bind fun qs qs' h => hmore qs qs' h.2 fun hqs => absurd hqs h.1
  refine steady_peek.bind fun t => ?_
  split
  · exact hend
  · exact hend
  · exact hend
  · exact paired_refuse
  · refine steady_take.bind fun _ => steady_readEscape.bind fun e => ?_
    exact hmore _ _ (alikeParts_escapePart hf hps) fun h => absurd h (List.cons_ne_nil _ _)
  · rename_i c _ _
    refine steady_take.bind fun _ => ?_
    dsimp only
    refine Paired.ite (fun _ => hmore _ _ hps id) fun _ => Paired.ite (fun _ => ?_) fun _ => ?_
    · refine Paired.get_bind fun s hs => ?_
      exact steady_skipLine.bind fun _ => hmore _ _ hps id
    · split
      · exact (inStep_readSet hf).bind fun s s' h => hother _ _ h
      · exact hrepeat _ _
      · exact hrepeat _ _
      · exact hrepeat _ _
      · refine steady_peek.bind fun next => Paired.ite (fun _ => hother _ _ (alike_one hf)) fun _ => ?_
        refine steady_readBounds.bind fun bounds => ?_
        split
        · exact hother _ _ (alike_one hf)
        · exact hrepeat _ _
      · exact hother _ _ alike_refl
      · exact hcondition _
      · exact hcondition _
      · exact hgroup
      · exact hother _ _ (alike_one hf)

/-! ## Groups -/

/-- The state of the reader after settings were turned on for the whole pattern. -/
def ReadState.turnOn (s : ReadState) (on : Flags) : ReadState := { s with flags := s.flags.or on }

theorem AlikeParts.isEmpty_eq (h : AlikeParts o ps ps') : ps'.isEmpty = ps.isEmpty := by
  have hlength := congrArg List.length h
  rw [List.length_map, List.length_map] at hlength
  cases ps <;> cases ps' <;> first | rfl | cases hlength

/-- What is read of a group, settings for the whole pattern apart. -/
inductive AlikeGroups (o : ReadState) : Flags ⊕ Option Regex → Flags ⊕ Option Regex → Prop
  | nothing : AlikeGroups o (.inr none) (.inr none)
  | pattern {r r' : Regex} : Alike o r r' → AlikeGroups o (.inr (some r)) (.inr (some r'))

/-- The outcomes of the two readers of a group. Only at the beginning of the pattern it can give settings for
the whole. -/
inductive GroupAgree (o : ReadState) (f : Flags) (b leading : Bool) (ps : List Part) :
    Except ReadError ((Flags ⊕ Option Regex) × ReadState) →
    Except ReadError ((Flags ⊕ Option Regex) × ReadState) → Prop
  | settled {first second} : Agree o (AlikeGroups o) first second → GroupAgree o f b leading ps first second
  | global {s : ReadState} {on : Flags} : leading = true → ps = [] → on.Spelled o.tokens → Within o s →
    GroupAgree o f b leading ps (.ok (.inl (f.or on), s.turnOn on))
      (.ok (.inl ((f.withCase b).or on), (s.turnOn on).caseless))

instance {ps : List Part} : Refusable o (GroupAgree o f b leading ps) := ⟨fun h => .settled (.error h)⟩

theorem InStep.group {x y : Reader (Flags ⊕ Option Regex)} (h : InStep o (AlikeGroups o) x y) :
    Paired o (GroupAgree o f b leading ps) x y := fun s hs => .settled (h s hs)

/-- A group that is read as a pattern. -/
theorem InStep.pattern {x y : Reader Regex} {wrap wrap' : Regex → Regex} (h : InStep o (Alike o) x y)
    (hwrap : ∀ r r', Alike o r r' → Alike o (wrap r) (wrap' r')) :
    InStep o (AlikeGroups o) (x >>= fun r => pure (.inr (some (wrap r))))
      (y >>= fun r => pure (.inr (some (wrap' r)))) :=
  h.bind fun r r' hr => inStep_pure (.pattern (hwrap r r' hr))

/-- A pattern up to the parenthesis that closes it. -/
def enclosed (x : Reader Regex) : Reader Regex := do
  let r ← x
  if !(← accept ')') then refuse
  return r

theorem InStep.enclosed {x y : Reader Regex} (h : InStep o (Alike o) x y) :
    InStep o (Alike o) (enclosed x) (enclosed y) := by
  unfold Regex.enclosed
  exact h.bind fun r r' hr => steady_accept.bind fun _ => Paired.guard fun _ => inStep_pure hr

/-- A group that is counted. -/
def captured (name : Option (List Char)) (x : Reader Regex) : Reader (Flags ⊕ Option Regex) := do
  let index ← openGroup name
  let r ← enclosed x
  closeGroup index r
  return .inr (some (.group index r))

theorem InStep.captured {x y : Reader Regex} (h : InStep o (Alike o) x y) (name : Option (List Char)) :
    InStep o (AlikeGroups o) (captured name x) (captured name y) := by
  unfold Regex.captured
  refine steady_openGroup.bind fun index => h.enclosed.bind fun r r' hr => ?_
  refine (inStep_closeGroup hr).bind fun _ _ _ => ?_
  exact inStep_pure (.pattern (congrArg (Regex.group index) hr))

/-- A pattern to look behind for, up to the parenthesis that closes it. -/
def enclosedBehind (negated : Bool) (x : Reader Regex) : Reader (Flags ⊕ Option Regex) := do
  let outer := (← get).lookBehindFrom
  let here ← nextGroup
  if outer.isNone then modify ({ · with lookBehindFrom := some here })
  let r ← x
  if outer.isNone then modify ({ · with lookBehindFrom := none })
  if !(← accept ')') then refuse
  return .inr (some (← lookBehind negated r))

theorem InStep.enclosedBehind {x y : Reader Regex} (h : InStep o (Alike o) x y) (negated : Bool) :
    InStep o (AlikeGroups o) (enclosedBehind negated x) (enclosedBehind negated y) := by
  unfold Regex.enclosedBehind
  refine Paired.get_bind fun s hs => steady_nextGroup.bind fun here => ?_
  refine Paired.when (steady_modify (fun s hs => ⟨hs.suffix, hs.flags⟩) fun _ => rfl) ?_
  refine h.bind fun r r' hr => ?_
  refine Paired.when (steady_modify (fun s hs => ⟨hs.suffix, hs.flags⟩) fun _ => rfl) ?_
  refine steady_accept.bind fun _ => Paired.guard fun _ => ?_
  exact (inStep_lookBehind hr).pattern fun _ _ h => h

/-- A group, given how the patterns in it are read. -/
theorem paired_readGroup (hf : Covered o f b) (hps : AlikeParts o ps ps')
    (halternatives : ∀ f b, Covered o f b → InStep o (Alike o) (readAlternatives fuel f false false)
      (readAlternatives fuel (f.withCase b) false false))
    (hsequence : InStep o (Alike o) (readSequence fuel f false []) (readSequence fuel (f.withCase b) false [])) :
    Paired o (GroupAgree o f b leading ps) (readGroup (fuel + 1) f leading ps)
      (readGroup (fuel + 1) (f.withCase b) leading ps') := by
  -- inside, the settings may be others than those around the group
  have hbody : ∀ f b, Covered o f b → InStep o (Alike o) (enclosed (readAlternatives fuel f false false))
      (enclosed (readAlternatives fuel (f.withCase b) false false)) :=
    fun f b h => (halternatives f b h).enclosed
  rw [readGroup, readGroup]
  refine Paired.get_bind fun s hs => ?_
  refine steady_accept.bind fun special => Paired.ite (fun _ => ?_) fun _ => ?_
  · exact ((halternatives f b hf).captured none).group
  refine inStep_take.bind ?_
  rintro t _ ⟨rfl, ht⟩
  -- one case for each sign that may follow the question mark
  split
  · refine steady_take.bind fun u => ?_
    split
    · refine steady_nameUntil.bind fun name => Paired.guard fun _ => ?_
      exact ((halternatives f b hf).captured (some name)).group
    · refine steady_nameUntil.bind fun name => Paired.guard fun _ => ?_
      refine Paired.get_bind fun s hs => ?_
      dsimp only [ReadState.caseless]
      split
      · exact paired_refuse
      · rename_i index _
        refine steady_closed.bind fun _ => Paired.guard fun _ => ?_
        refine steady_checkReference.bind fun _ => InStep.group (inStep_pure (.pattern ?_))
        unfold Alike
        rw [mapRules, mapRules, hf.caseRule]
    · exact paired_refuse
  · exact ((hbody f b hf).pattern fun _ _ h => h).group
  · exact steady_skipComment.bind fun _ => InStep.group (inStep_pure .nothing)
  · refine ((hbody f b hf).pattern fun r r' h => ?_).group
    exact congrArg (Regex.look none false) h
  · refine ((hbody f b hf).pattern fun r r' h => ?_).group
    exact congrArg (Regex.look none true) h
  · refine steady_take.bind fun u => ?_
    split
    · exact ((halternatives f b hf).enclosedBehind false).group
    · exact ((halternatives f b hf).enclosedBehind true).group
    · exact paired_refuse_bind
  · refine steady_readConditionGroup.bind fun index => hsequence.bind fun yes yes' hyes => ?_
    refine steady_accept.bind fun bar => ?_
    refine Paired.ite_bind (fun _ => hsequence) (fun _ => inStep_pure alike_refl) fun no no' hno => ?_
    refine steady_accept.bind fun _ => Paired.guard fun _ => InStep.group (inStep_pure (.pattern ?_))
    unfold Alike
    rw [mapRules, mapRules, hyes, hno]
  · refine ((hbody f b hf).pattern fun r r' h => ?_).group
    exact congrArg Regex.atomic h
  · refine Paired.guard fun _ => (inStep_readInlineFlags spelled_nothing (ht _ rfl)).bind ?_
    rintro settings _ ⟨rfl, hspelled⟩
    cases settings with
    | inl on =>
      -- settings for the whole pattern, refused anywhere but at its beginning
      dsimp only
      rw [hps.isEmpty_eq]
      refine Paired.guard fun hbegins s hs => ?_
      simp only [Bool.or_eq_true, Bool.not_eq_true', not_or, Bool.not_eq_false, List.isEmpty_iff] at hbegins
      exact .global hbegins.1 hbegins.2 (hspelled on rfl) hs
    | inr settings =>
      obtain ⟨b', hwithin, hcovered⟩ := hf.within settings.1 settings.2
      dsimp only
      rw [hwithin]
      exact ((hbody _ b' hcovered).pattern fun _ _ h => h).group
  · exact paired_refuse

/-- What comes behind a group: either it was like any other, or it gave settings for the whole pattern. -/
theorem paired_group_bind {α : Type} {P : Except ReadError (α × ReadState) → Except ReadError (α × ReadState) → Prop}
    [Refusable o P] {x y : Reader (Flags ⊕ Option Regex)} {k k' : Flags ⊕ Option Regex → Reader α}
    (h : Paired o (GroupAgree o f b leading ps) x y)
    (hsettled : ∀ a a', AlikeGroups o a a' → Paired o P (k a) (k' a'))
    (hglobal : leading = true → ps = [] → ∀ (on : Flags) (s : ReadState), on.Spelled o.tokens → Within o s →
      P (k (.inl (f.or on)) (s.turnOn on)) (k' (.inl ((f.withCase b).or on)) (s.turnOn on).caseless)) :
    Paired o P (x >>= k) (y >>= k') := by
  refine Paired.bind h ?_
  rintro _ _ ((⟨ha, hs⟩ | he) | ⟨hleading, hps, hspelled, hs⟩)
  · exact hsettled _ _ ha _ hs
  · exact Refusable.error he
  · exact hglobal hleading hps _ _ hspelled hs

/-! ## Patterns that leave the settings of the whole alone -/

/-- The readers go in step wherever they cannot touch the settings of the whole pattern. -/
structure InStepWithin (fuel : Nat) : Prop where
  alternatives : ∀ {o f b top first}, Covered o f b → (top && first) = false →
    InStep o (Alike o) (readAlternatives fuel f top first) (readAlternatives fuel (f.withCase b) top first)
  sequence : ∀ {o f b leading ps ps'}, Covered o f b → AlikeParts o ps ps' → ¬ (leading = true ∧ ps = []) →
    InStep o (Alike o) (readSequence fuel f leading ps) (readSequence fuel (f.withCase b) leading ps')
  group : ∀ {o f b leading ps ps'}, Covered o f b → AlikeParts o ps ps' →
    Paired o (GroupAgree o f b leading ps) (readGroup fuel f leading ps)
      (readGroup fuel (f.withCase b) leading ps')

theorem InStepWithin.alternatives_succ (ih : InStepWithin fuel) {top first : Bool} (hf : Covered o f b)
    (htop : (top && first) = false) : InStep o (Alike o) (readAlternatives (fuel + 1) f top first)
      (readAlternatives (fuel + 1) (f.withCase b) top first) := by
  rw [readAlternatives, readAlternatives]
  have hsettled : ¬ ((top && first) = true ∧ ([] : List Part) = []) := by simp [htop]
  refine (ih.sequence hf rfl hsettled).bind fun r r' hr => ?_
  refine steady_accept.bind fun bar => Paired.ite (fun _ => ?_) fun _ => inStep_pure hr
  refine Paired.get_bind fun s hs => ?_
  dsimp only
  have hmore : InStep o (Alike o) (readAlternatives fuel (if top then s.flags else f) top false)
      (readAlternatives fuel (if top then s.caseless.flags else f.withCase b) top false) := by
    cases top with
    | false => exact ih.alternatives hf rfl
    | true =>
      -- further alternatives are read under the settings of the whole, which disregard case in one reader
      have hwhole : Covered o s.flags true := fun ho => by rw [hs.flags, ho]
      exact ih.alternatives hwhole rfl
  refine hmore.bind fun more more' hmore => inStep_pure ?_
  unfold Alike
  rw [mapRules, mapRules, hr, hmore]

theorem InStepWithin.sequence_succ (ih : InStepWithin fuel) (hf : Covered o f b) (hps : AlikeParts o ps ps')
    (hsettled : ¬ (leading = true ∧ ps = [])) : InStep o (Alike o) (readSequence (fuel + 1) f leading ps)
      (readSequence (fuel + 1) (f.withCase b) leading ps') := by
  have hmore : ∀ qs qs', AlikeParts o qs qs' → (qs = [] → ps = []) → InStep o (Alike o)
      (readSequence fuel f leading qs) (readSequence fuel (f.withCase b) leading qs') :=
    fun qs qs' hqs hempty => ih.sequence hf hqs fun h => hsettled ⟨h.1, hempty h.2⟩
  refine paired_readSequence hf hps (inStep_pure hps.joinParts) hmore ?_
  refine paired_group_bind (ih.group hf hps) ?_ fun hleading hps => absurd ⟨hleading, hps⟩ hsettled
  rintro _ _ (_ | hr)
  · exact hmore _ _ hps id
  · exact hmore _ _ (hr.cons hps) fun h => absurd h (List.cons_ne_nil _ _)

theorem inStepWithin (fuel : Nat) : InStepWithin fuel := by
  induction fuel with
  | zero =>
    refine ⟨fun _ _ => ?_, fun _ _ _ => ?_, fun _ _ => ?_⟩
    · rw [readAlternatives, readAlternatives]
      exact paired_refuse
    · rw [readSequence, readSequence]
      exact paired_refuse
    · rw [readGroup, readGroup]
      exact paired_refuse
  | succ fuel ih =>
    refine ⟨ih.alternatives_succ, ih.sequence_succ, fun hf hps => ?_⟩
    exact paired_readGroup hf hps (fun _ _ hf => ih.alternatives hf rfl)
      (ih.sequence hf rfl fun h => Bool.noConfusion h.1)

/-! ## The beginning of a pattern -/

/-- The outcomes of the two readers of a whole pattern, which may have turned settings on. -/
inductive Begun (o : ReadState) :
    Except ReadError (Regex × ReadState) → Except ReadError (Regex × ReadState) → Prop
  | ok {r r' : Regex} {s : ReadState} {on : Flags} : s.tokens <:+ o.tokens → s.flags = o.flags.or on →
    on.Spelled o.tokens → Alike s r r' → Begun o (.ok (r, s)) (.ok (r', s.caseless))
  | error {e : ReadError} : Shows o.tokens e → Begun o (.error e) (.error e)

instance : Refusable o (Begun o) := ⟨.error⟩

theorem Flags.or_nothing : f.or {} = f := by
  unfold Flags.or
  simp only [Bool.or_false]

theorem Flags.or_assoc {f g h : Flags} : (f.or g).or h = f.or (g.or h) := by
  unfold Flags.or
  simp only [Bool.or_assoc]

theorem Agree.begun {first second : Except ReadError (Regex × ReadState)}
    (h : Agree o (Alike o) first second) : Begun o first second := by
  cases h with
  | ok hr hs =>
    refine .ok hs.suffix ?_ spelled_nothing ?_
    · rw [Flags.or_nothing, hs.flags]
    · unfold Alike
      rw [hs.flags]
      exact hr
  | error he => exact .error he

theorem Begun.mono {on : Flags} {first second : Except ReadError (Regex × ReadState)}
    (h : Begun s first second) (htokens : s.tokens <:+ o.tokens) (hflags : s.flags = o.flags.or on)
    (hon : on.Spelled o.tokens) : Begun o first second := by
  cases h with
  | ok htokens' hflags' hon' hr =>
    refine .ok (htokens'.trans htokens) ?_ (hon.or (hon'.mono htokens.subset)) hr
    rw [hflags', hflags, Flags.or_assoc]
  | error he => exact .error (he.of_suffix htokens)

/-- What comes behind the beginning of a pattern. -/
theorem paired_begun_bind {x y : Reader Regex} {k k' : Regex → Reader Regex} (h : Paired o (Begun o) x y)
    (hk : ∀ s r r', Alike s r r' → InStep s (Alike s) (k r) (k' r')) :
    Paired o (Begun o) (x >>= k) (y >>= k') := by
  refine Paired.bind h ?_
  rintro _ _ (⟨htokens, hflags, hon, hr⟩ | he)
  · exact (hk _ _ _ hr _ ⟨List.suffix_refl _, rfl⟩).begun.mono htokens hflags hon
  · exact .error he

theorem paired_readSequence_begun : Paired o (Begun o) (readSequence fuel o.flags true [])
    (readSequence fuel (o.flags.withCase true) true []) := by
  induction fuel generalizing o with
  | zero =>
    rw [readSequence, readSequence]
    exact paired_refuse
  | succ fuel ih =>
    have hf : Covered o o.flags true := fun ho => ho.symm
    -- as soon as there is a part, the settings of the whole are settled
    have hmore : ∀ qs qs', AlikeParts o qs qs' → Paired o (Begun o) (readSequence fuel o.flags true qs)
        (readSequence fuel (o.flags.withCase true) true qs') := by
      intro qs qs' hqs
      cases qs with
      | nil =>
        obtain rfl : qs' = [] := List.map_eq_nil_iff.mp hqs.symm
        exact ih
      | cons q qs =>
        have hsettled : ¬ (true = true ∧ q :: qs = []) := fun h => absurd h.2 (List.cons_ne_nil q qs)
        exact fun s hs => ((inStepWithin fuel).sequence hf hqs hsettled s hs).begun
    refine paired_readSequence hf rfl (fun s hs => (inStep_pure alike_refl s hs).begun)
      (fun qs qs' hqs _ => hmore qs qs' hqs) ?_
    refine paired_group_bind ((inStepWithin fuel).group hf rfl) ?_ ?_
    · rintro _ _ (_ | hr)
      · exact ih
      · exact hmore _ _ (hr.cons rfl)
    · intro _ _ on s hon hs
      -- what is read from here on begins with the settings turned on
      have hflags : (s.turnOn on).flags = o.flags.or on := by rw [← hs.flags]; rfl
      have hrest := ih (o := s.turnOn on) (s.turnOn on) ⟨List.suffix_refl _, rfl⟩
      rw [hflags] at hrest
      exact hrest.mono hs.suffix hflags hon

theorem paired_readAlternatives_begun (o : ReadState) (fuel : Nat) : Paired o (Begun o)
    (readAlternatives fuel o.flags true true) (readAlternatives fuel (o.flags.withCase true) true true) := by
  cases fuel with
  | zero =>
    rw [readAlternatives, readAlternatives]
    exact paired_refuse
  | succ fuel =>
    rw [readAlternatives, readAlternatives]
    refine paired_begun_bind paired_readSequence_begun fun s r r' hr => ?_
    refine steady_accept.bind fun bar => Paired.ite (fun _ => ?_) fun _ => inStep_pure hr
    refine Paired.get_bind fun t ht => ?_
    have hwhole : Covered s t.flags true := fun hs => by rw [ht.flags, hs]
    refine ((inStepWithin fuel).alternatives hwhole rfl).bind fun more more' hmore => inStep_pure ?_
    unfold Alike
    rw [mapRules, mapRules, hr, hmore]

end Steps

/-! ## Whole patterns -/

section Whole

variable {source : List Char}

/-- The characters of a unit. -/
def Token.chars : Token → List Char
  | .plain c => [c]
  | .escaped c => ['\\', c]
  | .dangling => ['\\']

theorem flatMap_readTokens (source : List Char) : (readTokens source).flatMap Token.chars = source := by
  induction source using readTokens.induct with
  | case1 => rfl
  | case2 => rfl
  | case3 c rest ih => 
    rw [readTokens, List.flatMap_cons, ih]
    rfl
  | case4 c rest hlast hescape ih =>
    rw [readTokens, List.flatMap_cons, ih]
    · rfl
    · exact hlast
    · exact hescape

theorem mem_of_plain_mem {c : Char} (h : Token.plain c ∈ readTokens source) : c ∈ source := by
  rw [← flatMap_readTokens source]
  exact List.mem_flatMap.mpr ⟨_, h, List.mem_cons_self⟩

theorem infix_of_map_plain {ds : List Char} (h : ds.map Token.plain <:+: readTokens source) :
    ds <:+: source := by
  obtain ⟨before, behind, h⟩ := h
  have hplain : (ds.map Token.plain).flatMap Token.chars = ds := by
    rw [List.flatMap_map]
    exact List.flatMap_singleton' ds
  refine ⟨before.flatMap Token.chars, behind.flatMap Token.chars, ?_⟩
  rw [← flatMap_readTokens source, ← h, List.flatMap_append, List.flatMap_append, hplain]

/-- The reason of a refusal is there in the text of the pattern. -/
def ReadError.ShownIn (source : List Char) : ReadError → Prop
  | .malformed => True
  | .countTooLarge => ∃ ds : List Char, ds <:+: source ∧ (∀ d ∈ ds, d.isDigit = true) ∧
      countLimit ≤ digitsValue 10 ds
  | .flagsConflict => 'a' ∈ source ∧ 'u' ∈ source

theorem ReadError.ShownIn.mono {text : List Char} {e : ReadError} (h : e.ShownIn source)
    (hsource : source <:+: text) : e.ShownIn text := by
  cases e with
  | malformed => trivial
  | countTooLarge =>
    obtain ⟨ds, hds, hdigits, hlarge⟩ := h
    exact ⟨ds, hds.trans hsource, hdigits, hlarge⟩
  | flagsConflict => exact ⟨hsource.subset h.1, hsource.subset h.2⟩

theorem Shows.shownIn {e : ReadError} (h : Shows (readTokens source) e) : e.ShownIn source := by
  cases e with
  | malformed => trivial
  | countTooLarge =>
    obtain ⟨ds, hds, hdigits, hlarge⟩ := h
    exact ⟨ds, infix_of_map_plain hds, hdigits, hlarge⟩
  | flagsConflict => exact h.elim

/-- The outcomes of reading a text as it is and of reading it with case disregarded. -/
inductive AlikeReadings (source : List Char) : Except ReadError Reading → Except ReadError Reading → Prop
  | ok {r r' : Reading} : r'.flags = r.flags.withCase true →
    r.regex.mapRules r.flags.common = r'.regex.mapRules r.flags.common → AlikeReadings source (.ok r) (.ok r')
  | error {e : ReadError} : e.ShownIn source → AlikeReadings source (.error e) (.error e)

/-- What is wrong with a pattern when it has been read to where it ends. -/
def ReadState.defect? (s : ReadState) : Option ReadError :=
  if s.flags.ascii && s.flags.unicode then some .flagsConflict
  else if !s.tokens.isEmpty || s.mentioned.any (· > s.groups.length) || s.unusable then some .malformed
  else none

/-- What comes of a pattern that has been read to where it ends. -/
def finish (p : Regex × ReadState) : Except ReadError Reading :=
  match p.2.defect? with
  | some e => .error e
  | none => .ok ⟨p.1, p.2.flags⟩

theorem readWith_eq {f : Flags} : readWith f source =
    (readAlternatives (3 * (readTokens source).length + 4) f true true
      { tokens := readTokens source, flags := f } >>= finish) := by
  unfold readWith StateT.run
  dsimp only
  congr 1
  funext ⟨r, s⟩
  unfold finish ReadState.defect?
  dsimp only
  cases hconflict : s.flags.ascii && s.flags.unicode with
  | true => rfl
  | false =>
    cases htokens : s.tokens.isEmpty <;> cases hmentioned : s.mentioned.any (· > s.groups.length) <;>
      cases hunusable : s.unusable <;> rfl

/-- A conflict is one between letters of the text, as no settings were given with it. -/
theorem shownIn_of_defect? {s : ReadState} {on : Flags} {e : ReadError} (hflags : s.flags = Flags.or {} on)
    (hon : on.Spelled (readTokens source)) (he : s.defect? = some e) : e.ShownIn source := by
  unfold ReadState.defect? at he
  split at he
  · cases he
    rename_i hconflict
    rw [Bool.and_eq_true, hflags] at hconflict
    exact ⟨mem_of_plain_mem (hon.1 hconflict.1), mem_of_plain_mem (hon.2 hconflict.2)⟩
  · split at he <;> cases he
    trivial

/-- With case disregarded the same texts are read, and refused for the same reasons, and what is read is the
same but for the rules for case. -/
theorem alikeReadings (source : List Char) : AlikeReadings source (readWith {} source) (readWith { ignoreCase := true } source) := by
  have hbegun := paired_readAlternatives_begun { tokens := readTokens source, flags := {} }
    (3 * (readTokens source).length + 4) _ ⟨List.suffix_refl _, rfl⟩
  rw [readWith_eq, readWith_eq]
  dsimp only [ReadState.caseless, Flags.withCase] at hbegun
  revert hbegun
  generalize readAlternatives _ _ _ _ _ = first
  generalize readAlternatives _ _ _ _ _ = second
  intro hbegun
  cases hbegun with
  | @ok r r' s on htokens hflags hon hr =>
    have hfinish : ∀ r, (Except.ok (r, s) >>= finish) = finish (r, s) := fun _ => rfl
    have hfinish' : ∀ r, (Except.ok (r, s.caseless) >>= finish) = finish (r, s.caseless) := fun _ => rfl
    have hdefect : s.caseless.defect? = s.defect? := rfl
    rw [hfinish, hfinish']
    unfold finish
    dsimp only
    rw [hdefect]
    cases he : s.defect? with
    | some e => exact .error (shownIn_of_defect? hflags hon he)
    | none => exact .ok rfl hr
  | error he => exact .error he.shownIn

theorem shownIn_of_readWith_error {e : ReadError} (h : readWith {} source = .error e) : e.ShownIn source := by
  have halike := alikeReadings source
  rw [h] at halike
  generalize readWith { ignoreCase := true } source = second at halike
  cases halike with
  | error he => exact he

end Whole

end BlockMarkup.Regex
