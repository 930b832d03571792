import Mathlib.Data.List.Infix
import BlockMarkup.Proofs.Regex.Written

/-! # Reading twice in step

A written pattern is read once as it is and once with case disregarded. The two readers go in step
(`Paired`): they take the same units, keep the same books but for the one flag, and refuse at the same unit
for the same reason. Where they refuse for another reason than the form of the pattern, the writing shows it
(`Shows`). This module has the rules by which steps are put together, and the readers for the parts of a
pattern that have no patterns in them.
-/

namespace BlockMarkup.Regex

open Reader

/-! ## What two readers have in common -/

/-- The settings with another rule for case. -/
def Flags.withCase (f : Flags) (ignoreCase : Bool) : Flags := { f with ignoreCase }

/-- The state of the reader that disregards case. -/
def ReadState.caseless (s : ReadState) : ReadState := { s with flags := s.flags.withCase true }

/-- The reason of a refusal is there in the writing: a count that is too large is a row of digits. -/
def Shows (ts : List Token) : ReadError → Prop
  | .malformed => True
  | .countTooLarge => ∃ ds : List Char, ds.map Token.plain <:+: ts ∧ (∀ d ∈ ds, d.isDigit = true) ∧
      countLimit ≤ digitsValue 10 ds
  | .flagsConflict => False

theorem Shows.of_suffix {ts us : List Token} {e : ReadError} (h : Shows us e) (hus : us <:+ ts) :
    Shows ts e := by
  cases e with
  | malformed => trivial
  | countTooLarge =>
    obtain ⟨ds, hds, hdigits, hlarge⟩ := h
    exact ⟨ds, hds.trans hus.isInfix, hdigits, hlarge⟩
  | flagsConflict => exact h

/-- A state on the way from another one, the settings of the whole pattern being as they were. -/
structure Within (o s : ReadState) : Prop where
  suffix : s.tokens <:+ o.tokens
  flags : s.flags = o.flags

theorem Within.rest {o s : ReadState} {t : Token} {ts : List Token} (h : Within o s)
    (htokens : s.tokens = t :: ts) : Within o { s with tokens := ts } := by
  refine ⟨?_, h.flags⟩
  have hsuffix := h.suffix
  rw [htokens] at hsuffix
  exact (List.suffix_cons t ts).trans hsuffix

/-- The outcome of a reader and that of the one that disregards case. -/
inductive Agree {α : Type} (o : ReadState) (R : α → α → Prop) :
    Except ReadError (α × ReadState) → Except ReadError (α × ReadState) → Prop
  | ok {a b : α} {s : ReadState} : R a b → Within o s → Agree o R (.ok (a, s)) (.ok (b, s.caseless))
  | error {e : ReadError} : Shows o.tokens e → Agree o R (.error e) (.error e)

section Rules

variable {o s : ReadState} {α β : Type} {R : α → α → Prop} {x y : Reader α}
  {f g : α → Reader β} {a b : α} {c : Char} {fs : Flags}

/-- From states in step, two readers come to outcomes that are related. -/
def Paired (o : ReadState)
    (P : Except ReadError (α × ReadState) → Except ReadError (α × ReadState) → Prop)
    (x y : Reader α) : Prop :=
  ∀ s, Within o s → P (x s) (y s.caseless)

/-- The relation holds where both refuse for one reason that the writing shows. -/
class Refusable (o : ReadState)
    (P : Except ReadError (α × ReadState) → Except ReadError (α × ReadState) → Prop) : Prop where
  error : ∀ {e}, Shows o.tokens e → P (.error e) (.error e)

/-- Readers in step, with results that are related. -/
abbrev InStep (o : ReadState) (R : α → α → Prop) (x y : Reader α) : Prop := Paired o (Agree o R) x y

/-- A reader that goes the same way whether case is disregarded or not. -/
abbrev Steady (o : ReadState) (x : Reader α) : Prop := InStep o Eq x x

instance : Refusable o (Agree o R) := ⟨.error⟩

theorem Agree.imp {first second : Except ReadError (α × ReadState)} {R' : α → α → Prop}
    (h : Agree o R first second) (hR : ∀ a b, R a b → R' a b) : Agree o R' first second := by
  cases h with
  | ok h hs => exact .ok (hR _ _ h) hs
  | error he => exact .error he

theorem InStep.imp {R' : α → α → Prop} (h : InStep o R x y) (hR : ∀ a b, R a b → R' a b) :
    InStep o R' x y := fun s hs => (h s hs).imp hR

section

variable {P : Except ReadError (β × ReadState) → Except ReadError (β × ReadState) → Prop}

/-! ## Rules -/

theorem Paired.ite {p : Prop} [Decidable p] {z z' w w' : Reader β} (hz : p → Paired o P z z')
    (hw : ¬ p → Paired o P w w') : Paired o P (if p then z else w) (if p then z' else w') := by
  split
  · exact hz ‹_›
  · exact hw ‹_›

/-- What comes behind two readers is related as far as it is so behind each of their outcomes. -/
theorem Paired.bind {Q : Except ReadError (α × ReadState) → Except ReadError (α × ReadState) → Prop}
    (h : Paired o Q x y) (hQ : ∀ first second, Q first second →
      P (first >>= fun p => f p.1 p.2) (second >>= fun p => g p.1 p.2)) :
    Paired o P (x >>= f) (y >>= g) := by
  intro s hs
  rw [bind_apply, bind_apply]
  exact hQ _ _ (h s hs)

/-- The books of the two are looked into. -/
theorem Paired.get_bind {f g : ReadState → Reader β}
    (h : ∀ s, Within o s → Paired o P (f s) (g s.caseless)) : Paired o P (get >>= f) (get >>= g) :=
  fun s hs => h s hs s hs

variable [Refusable o P]

theorem InStep.bind (h : InStep o R x y) (hfg : ∀ a b, R a b → Paired o P (f a) (g b)) :
    Paired o P (x >>= f) (y >>= g) := by
  refine Paired.bind h ?_
  rintro _ _ (⟨hR, hs⟩ | he)
  · exact hfg _ _ hR _ hs
  · exact Refusable.error he

theorem Steady.bind (h : Steady o x) (hfg : ∀ a, Paired o P (f a) (g a)) :
    Paired o P (x >>= f) (x >>= g) := by
  refine InStep.bind h ?_
  rintro a _ rfl
  exact hfg a

/-- What comes behind a branch is read in step behind each of its ends. -/
theorem Paired.ite_bind {p : Prop} [Decidable p] {z z' w w' : Reader α}
    (hz : p → InStep o R z z') (hw : ¬ p → InStep o R w w')
    (hfg : ∀ a b, R a b → Paired o P (f a) (g b)) :
    Paired o P (if p then z >>= f else w >>= f) (if p then z' >>= g else w' >>= g) :=
  Paired.ite (fun h => (hz h).bind hfg) fun h => (hw h).bind hfg

theorem inStep_pure (h : R a b) : InStep o R (pure a) (pure b) := fun _ hs => .ok h hs

theorem paired_refuse : Paired o P refuse refuse := fun _ _ => Refusable.error (P := P) (o := o) trivial

/-- Readers that refuse before all else. -/
theorem paired_refuse_bind : Paired o P (Reader.refuse >>= f) (Reader.refuse >>= g) :=
  fun _ _ => Refusable.error (P := P) (o := o) trivial

/-- What is refused on a condition goes on without it. -/
theorem Paired.guard {p : Prop} [Decidable p] {f' g' : α → Reader β} {z w : Reader β}
    (h : ¬ p → Paired o P z w) :
    Paired o P (if p then Reader.refuse >>= f' else z) (if p then Reader.refuse >>= g' else w) :=
  Paired.ite (fun _ => paired_refuse_bind) h

/-- A step that may be left out. -/
theorem Paired.when {p : Prop} [Decidable p] {z w : Reader β} (hx : Steady o x) (h : Paired o P z w) :
    Paired o P (if p then x >>= fun _ => z else z) (if p then x >>= fun _ => w else w) :=
  Paired.ite (fun _ => hx.bind fun _ => h) fun _ => h

end

theorem inStep_set {a : ReadState} (h : Within o a) : InStep o Eq (set a) (set a.caseless) :=
  fun _ _ => .ok rfl h

theorem steady_modify {change : ReadState → ReadState} (hchange : ∀ s, Within o s → Within o (change s))
    (hcase : ∀ s, change s.caseless = (change s).caseless) : Steady o (modify change : Reader Unit) := by
  intro s hs
  have hother : (modify change : Reader Unit) s.caseless = .ok ((), (change s).caseless) := by
    rw [← hcase]
    rfl
  rw [hother]
  exact .ok rfl (hchange s hs)

/-! ## Units -/

theorem inStep_take :
    InStep o (fun a b => a = b ∧ ∀ t ∈ a, t ∈ o.tokens) Reader.take Reader.take := by
  unfold Reader.take
  refine Paired.get_bind fun s hs => ?_
  dsimp only [ReadState.caseless]
  cases htokens : s.tokens with
  | nil => exact inStep_pure ⟨rfl, by simp⟩
  | cons t rest =>
    refine (inStep_set (hs.rest htokens)).bind fun _ _ _ => inStep_pure ⟨rfl, ?_⟩
    rintro _ ⟨⟩
    apply hs.suffix.subset
    rw [htokens]
    exact List.mem_cons_self

theorem steady_take : Steady o Reader.take := inStep_take.imp fun _ _ h => h.1

theorem steady_peek : Steady o peek := by
  unfold peek
  exact Paired.get_bind fun s hs => inStep_pure rfl

theorem steady_accept : Steady o (accept c) := by
  unfold accept
  refine Paired.get_bind fun s hs => ?_
  dsimp only [ReadState.caseless]
  split
  · rename_i d rest htokens
    refine Paired.ite (fun _ => ?_) fun _ => inStep_pure rfl
    exact (inStep_set (hs.rest htokens)).bind fun _ _ _ => inStep_pure rfl
  · exact inStep_pure rfl

/-- The characters that are taken stand at the front, whatever else is in the books. -/
theorem takeWhile_run (test : Char → Bool) (n : Nat) (ts : List Token) :
    ∃ ds rest, ts = ds.map .plain ++ rest ∧ (∀ d ∈ ds, test d = true) ∧
      ∀ s : ReadState, takeWhile test n (s.at ts) = .ok (ds, s.at rest) := by
  induction n generalizing ts with
  | zero => exact ⟨[], ts, rfl, by simp, fun _ => rfl⟩
  | succ n ih =>
    by_cases h : ∃ d more, ts = .plain d :: more ∧ test d = true
    · obtain ⟨d, more, rfl, hd⟩ := h
      obtain ⟨ds, rest, rfl, hds, hrun⟩ := ih more
      refine ⟨d :: ds, rest, rfl, List.forall_mem_cons.mpr ⟨hd, hds⟩, fun s => ?_⟩
      rw [takeWhile_cons hd, bind_eq_of_ok (hrun s)]
      rfl
    · refine ⟨[], ts, rfl, by simp, fun s => takeWhile_stop fun d more hts => ?_⟩
      rw [Bool.eq_false_iff]
      exact fun hd => h ⟨d, more, hts, hd⟩

theorem inStep_takeWhile {test : Char → Bool} {n : Nat} :
    InStep o (fun a b => a = b ∧ a.map Token.plain <:+: o.tokens ∧ ∀ d ∈ a, test d = true)
      (takeWhile test n) (takeWhile test n) := by
  intro s hs
  obtain ⟨ds, rest, htokens, hds, hrun⟩ := takeWhile_run test n s.tokens
  have hsuffix := hs.suffix
  rw [htokens] at hsuffix
  have hfirst : takeWhile test n s = .ok (ds, s.at rest) := hrun s
  have hsecond : takeWhile test n s.caseless = .ok (ds, (s.at rest).caseless) := hrun s.caseless
  rw [hfirst, hsecond]
  exact .ok ⟨rfl, (List.prefix_append _ rest).isInfix.trans hsuffix.isInfix, hds⟩
    ⟨(List.suffix_append _ rest).trans hsuffix, hs.flags⟩

theorem steady_takeWhile {test : Char → Bool} {n : Nat} : Steady o (takeWhile test n) :=
  inStep_takeWhile.imp fun _ _ h => h.1

theorem steady_nameUntil {n : Nat} {name : List Char} : Steady o (nameUntil c n name) := by
  induction n generalizing name with
  | zero => exact paired_refuse
  | succ n ih =>
    rw [nameUntil]
    refine steady_take.bind fun t => ?_
    split
    · exact paired_refuse
    · exact paired_refuse
    · exact ih
    · exact Paired.ite (fun _ => Paired.ite (fun _ => paired_refuse) fun _ => inStep_pure rfl) fun _ => ih

/-! ## Groups and references -/

theorem steady_nextGroup : Steady o nextGroup := by
  unfold nextGroup
  exact Paired.get_bind fun s hs => inStep_pure rfl

theorem steady_closed {index : Nat} : Steady o (closed index) := by
  unfold closed
  exact Paired.get_bind fun s hs => inStep_pure rfl

theorem steady_checkReference {index : Nat} : Steady o (checkReference index) := by
  unfold checkReference
  refine Paired.get_bind fun s hs => ?_
  dsimp only [ReadState.caseless]
  split
  · exact inStep_pure rfl
  · refine steady_closed.bind fun closed => Paired.guard fun _ => ?_
    exact Paired.ite (fun _ => paired_refuse) fun _ => inStep_pure rfl

theorem steady_readConditionGroup : Steady o readConditionGroup := by
  unfold readConditionGroup
  refine Paired.get_bind fun s hs => ?_
  refine steady_nameUntil.bind fun name => Paired.ite (fun _ => ?_) fun _ => ?_
  · refine Paired.get_bind fun s hs => ?_
    dsimp only [ReadState.caseless]
    split
    · exact paired_refuse
    · exact steady_checkReference.bind fun _ => inStep_pure rfl
  · split
    · exact paired_refuse
    · exact paired_refuse
    · refine Paired.guard fun _ => ?_
      refine Steady.bind (steady_modify (fun s hs => ⟨hs.suffix, hs.flags⟩) fun _ => rfl) fun _ => ?_
      exact steady_checkReference.bind fun _ => inStep_pure rfl

theorem steady_openGroup {name : Option (List Char)} : Steady o (openGroup name) := by
  unfold openGroup
  refine steady_nextGroup.bind fun index => ?_
  refine Steady.bind (steady_modify (fun s hs => ⟨hs.suffix, hs.flags⟩) fun _ => rfl) fun _ => ?_
  split
  · exact inStep_pure rfl
  · refine Paired.get_bind fun s hs => ?_
    dsimp only [ReadState.caseless]
    refine Paired.guard fun _ => ?_
    refine Steady.bind (steady_modify (fun s hs => ⟨hs.suffix, hs.flags⟩) fun _ => rfl) fun _ => ?_
    exact inStep_pure rfl

/-! ## Escapes -/

theorem steady_readCode {n : Nat} : Steady o (readCode n) := by
  unfold readCode
  refine steady_takeWhile.bind fun ds => Paired.guard fun _ => ?_
  exact Paired.guard fun _ => inStep_pure rfl

theorem steady_readPlainEscape : Steady o (readPlainEscape c) := by
  unfold readPlainEscape
  refine Paired.ite (fun _ => steady_readCode) fun _ => ?_
  refine Paired.ite (fun _ => steady_readCode) fun _ => ?_
  refine Paired.ite (fun _ => steady_readCode) fun _ => ?_
  exact Paired.ite (fun _ => paired_refuse) fun _ => inStep_pure rfl

theorem steady_readSetEscape : Steady o (readSetEscape c) := by
  unfold readSetEscape
  refine Paired.ite (fun _ => inStep_pure rfl) fun _ => ?_
  split
  · exact inStep_pure rfl
  · split
    · exact inStep_pure rfl
    · refine Paired.ite (fun _ => ?_) fun _ => steady_readPlainEscape
      exact steady_takeWhile.bind fun ds => Paired.guard fun _ => inStep_pure rfl

theorem steady_readDigitEscape : Steady o (readDigitEscape c) := by
  unfold readDigitEscape
  dsimp only
  have hreference : ∀ ds : List Char, Steady o (do
      let index := digitsValue 10 ds
      if index ≥ (← nextGroup) then refuse
      if !(← closed index) then refuse
      checkReference index
      return Escape.reference index) := by
    intro ds
    refine steady_nextGroup.bind fun next => Paired.guard fun _ => ?_
    refine steady_closed.bind fun closed => Paired.guard fun _ => ?_
    exact steady_checkReference.bind fun _ => inStep_pure rfl
  refine steady_takeWhile.bind fun ds => ?_
  split
  · exact hreference [c]
  · rename_i d more
    refine Paired.ite (fun _ => ?_) fun _ => hreference [c, d]
    refine steady_takeWhile.bind fun es => ?_
    split
    · exact hreference [c, d]
    · exact Paired.guard fun _ => inStep_pure rfl

theorem steady_readEscape {fs : Flags} : Steady o (readEscape fs c) := by
  unfold readEscape
  split
  iterate 4 exact inStep_pure rfl
  · exact steady_takeWhile.bind fun ds => inStep_pure rfl
  split
  · exact inStep_pure rfl
  · split
    · exact inStep_pure rfl
    · exact Paired.ite (fun _ => steady_readDigitEscape) fun _ => steady_readPlainEscape

/-! ## Sets -/

theorem steady_readSetMember {t : Option Token} : Steady o (readSetMember t) := by
  unfold readSetMember
  split
  · exact paired_refuse
  · exact paired_refuse
  · exact steady_readSetEscape
  · exact inStep_pure rfl

theorem steady_readSetItems {ascii first : Bool} {n : Nat} : Steady o (readSetItems ascii n first) := by
  induction n generalizing first with
  | zero => exact paired_refuse
  | succ n ih =>
    rw [readSetItems]
    refine steady_take.bind fun t => Paired.ite (fun _ => inStep_pure rfl) fun _ => ?_
    refine steady_readSetMember.bind fun a => steady_accept.bind fun hyphen => ?_
    refine Paired.ite (fun _ => ?_) fun _ => ?_
    · refine steady_take.bind fun u => Paired.ite (fun _ => inStep_pure rfl) fun _ => ?_
      refine steady_readSetMember.bind fun b => ?_
      split
      · exact Paired.guard fun _ => ih.bind fun items => inStep_pure rfl
      · exact paired_refuse
    · exact ih.bind fun items => inStep_pure rfl

/-! ## Repetition -/

/-- A count is refused as too large only for the digits that stand there. -/
theorem steady_count {ds : List Char} (hds : ds.map Token.plain <:+: o.tokens)
    (hdigits : ∀ d ∈ ds, d.isDigit = true) : Steady o (count ds) := by
  unfold count
  intro s hs
  dsimp only
  split
  · exact .error ⟨ds, hds, hdigits, ‹_›⟩
  · exact .ok rfl hs

theorem steady_readBounds : Steady o readBounds := by
  unfold readBounds
  refine Paired.get_bind fun s hs => ?_
  dsimp only
  -- the digits are kept in view: if a count is refused, it has to show in them
  refine inStep_takeWhile.bind ?_
  rintro lo _ ⟨rfl, hlo⟩
  refine steady_accept.bind fun comma => ?_
  refine Paired.ite_bind (fun _ => inStep_takeWhile) (fun _ => inStep_pure ⟨rfl, hlo⟩) ?_
  rintro hi _ ⟨rfl, hhi⟩
  refine steady_accept.bind fun closed => Paired.ite (fun _ => ?_) fun _ => ?_
  · -- what stands here is no repetition, and both readers go back to where they were
    exact (inStep_set hs).bind fun _ _ _ => inStep_pure rfl
  · refine steady_peek.bind fun next => Paired.guard fun _ => ?_
    refine Paired.ite_bind (fun _ => inStep_pure rfl) (fun _ => steady_count hlo.1 hlo.2) ?_
    rintro least _ rfl
    refine Paired.ite (fun _ => inStep_pure rfl) fun _ => ?_
    refine (steady_count hhi.1 hhi.2).bind fun most => ?_
    exact Paired.guard fun _ => inStep_pure rfl

theorem steady_readGreed : Steady o readGreed := by
  unfold readGreed
  refine steady_accept.bind fun lazy => Paired.ite (fun _ => inStep_pure rfl) fun _ => ?_
  exact steady_accept.bind fun possessive => Paired.ite (fun _ => inStep_pure rfl) fun _ => inStep_pure rfl

/-! ## Inline settings -/

/-- Settings of character classes that are turned on have their letters in the writing. -/
def Flags.Spelled (on : Flags) (ts : List Token) : Prop :=
  (on.ascii = true → Token.plain 'a' ∈ ts) ∧ (on.unicode = true → Token.plain 'u' ∈ ts)

theorem spelled_nothing {ts : List Token} : Flags.Spelled {} ts :=
  ⟨fun h => Bool.noConfusion h, fun h => Bool.noConfusion h⟩

theorem Flags.Spelled.or {f g : Flags} {ts : List Token} (hf : f.Spelled ts) (hg : g.Spelled ts) :
    (f.or g).Spelled ts := by
  unfold Flags.Spelled Flags.or
  simp only [Bool.or_eq_true]
  exact ⟨fun h => h.elim hf.1 hg.1, fun h => h.elim hf.2 hg.2⟩

theorem Flags.Spelled.mono {f : Flags} {ts us : List Token} (h : f.Spelled us) (hus : us ⊆ ts) :
    f.Spelled ts := ⟨fun hf => hus (h.1 hf), fun hf => hus (h.2 hf)⟩

theorem spelled_of_ofLetter? {f : Flags} {ts : List Token} (h : Flags.ofLetter? c = some f)
    (hc : Token.plain c ∈ ts) : f.Spelled ts := by
  unfold Flags.ofLetter? at h
  split at h
  -- all letters but those for character classes leave both settings off
  all_goals cases h <;> simp [Flags.Spelled, hc]

theorem inStep_addLetter {on : Flags} (hon : on.Spelled o.tokens) (hc : Token.plain c ∈ o.tokens) :
    InStep o (fun a b => a = b ∧ a.Spelled o.tokens) (addLetter on c) (addLetter on c) := by
  unfold addLetter
  split
  · exact paired_refuse
  · rename_i f hletter
    exact Paired.guard fun _ => inStep_pure ⟨rfl, hon.or (spelled_of_ofLetter? hletter hc)⟩

theorem steady_readFlagsOff {off : Flags} {n : Nat} : Steady o (readFlagsOff n off) := by
  induction n generalizing off with
  | zero => exact paired_refuse
  | succ n ih =>
    rw [readFlagsOff]
    refine steady_take.bind fun t => ?_
    split
    · exact Paired.ite (fun _ => paired_refuse) fun _ => inStep_pure rfl
    · split
      · exact paired_refuse
      · exact Paired.guard fun _ => ih
    · exact paired_refuse

theorem inStep_readInlineFlags {on : Flags} {n : Nat} (hon : on.Spelled o.tokens)
    (hc : Token.plain c ∈ o.tokens) :
    InStep o (fun a b => a = b ∧ ∀ on, a = .inl on → on.Spelled o.tokens) (readInlineFlags n on c)
      (readInlineFlags n on c) := by
  induction n generalizing on c with
  | zero => exact paired_refuse
  | succ n ih =>
    rw [readInlineFlags]
    refine Paired.ite (fun _ => inStep_pure ⟨rfl, ?_⟩) fun _ => ?_
    · rintro _ ⟨⟩
      exact hon
    refine Paired.ite (fun _ => ?_) fun _ => Paired.ite (fun _ => ?_) fun _ => ?_
    · exact Paired.ite (fun _ => paired_refuse) fun _ => inStep_pure ⟨rfl, by simp⟩
    · refine Paired.guard fun _ => Paired.get_bind fun s hs => ?_
      refine steady_readFlagsOff.bind fun off => Paired.guard fun _ => ?_
      exact inStep_pure ⟨rfl, by simp⟩
    · refine (inStep_addLetter hon hc).bind ?_
      rintro on _ ⟨rfl, hon⟩
      refine inStep_take.bind ?_
      rintro t _ ⟨rfl, ht⟩
      split
      · exact ih hon (ht _ rfl)
      · exact paired_refuse

/-! ## What is passed over -/

theorem steady_skipComment {n : Nat} : Steady o (skipComment n) := by
  induction n with
  | zero => exact paired_refuse
  | succ n ih =>
    rw [skipComment]
    refine steady_take.bind fun t => ?_
    split
    · exact paired_refuse
    · exact paired_refuse
    · exact inStep_pure rfl
    · exact ih

theorem steady_skipLine {n : Nat} : Steady o (skipLine n) := by
  induction n with
  | zero => exact inStep_pure rfl
  | succ n ih =>
    rw [skipLine]
    refine steady_take.bind fun t => ?_
    split
    · exact inStep_pure rfl
    · exact paired_refuse
    · exact inStep_pure rfl
    · exact ih

end Rules

end BlockMarkup.Regex
