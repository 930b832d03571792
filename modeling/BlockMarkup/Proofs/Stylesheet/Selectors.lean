import BlockMarkup.Proofs.FirstOccurrence
import BlockMarkup.Proofs.Lint.Pooled
import BlockMarkup.Stylesheet.Generate

/-! # Selectors that the policy allows

The policy is read twice. The linter reports the modifiers and attributes that have no place in it,
and the writer has no selectors for them. The two agree: at a Block or an Element nothing is reported
exactly if everything is written (`silent_iff_writesAll`).
-/

namespace BlockMarkup.StylesheetWriter

variable {w : StylesheetWriter} {c : Component} {m : String} {a : AttributeSelector}

/-- The classes of a node that are taken for modifiers. -/
def modifierTokens (w : StylesheetWriter) (c : Component) : List String :=
  w.options.naming.modifiersOf w.options.external c.modifiers

/-- Every modifier, every variant and every state of the node has its selector. -/
structure WritesAll (w : StylesheetWriter) (c : Component) : Prop where
  modifiers : ∀ m ∈ w.modifierTokens c,
    modifierSelector m ∈ w.variantSelectors c ∨ modifierSelector m ∈ w.stateSelectors c
  variants : ∀ a ∈ c.variants, attributeSelector a ∈ w.variantSelectors c
  states : ∀ a ∈ c.states, attributeSelector a ∈ w.stateSelectors c

/-! ## What is among the selectors -/

theorem modifierSelector_injective : Function.Injective modifierSelector := by
  intro m m' h
  have hchars := congrArg String.toList h
  exact String.toList_injective (by simpa [modifierSelector] using hchars)

/-- A modifier is never taken for an attribute: a dot is no bracket. -/
theorem modifierSelector_ne_attributeSelector (m : String) (a : AttributeSelector) :
    modifierSelector m ≠ attributeSelector a := by
  intro h
  have hchars := congrArg (fun s => s.toList[1]?) h
  unfold modifierSelector attributeSelector AttributeSelector.selector at hchars
  split at hchars <;> simp at hchars

theorem modifierSelector_notMem_attributes {as : List AttributeSelector} :
    modifierSelector m ∉ as.map attributeSelector := by
  intro h
  rcases List.mem_map.mp h with ⟨a, _, he⟩
  exact modifierSelector_ne_attributeSelector m a he.symm

theorem attributeSelector_notMem_modifiers {ms : List String} :
    attributeSelector a ∉ ms.map modifierSelector := by
  intro h
  rcases List.mem_map.mp h with ⟨m, _, he⟩
  exact modifierSelector_ne_attributeSelector m a he

/-- Modifiers are variants wherever classes mark variants. -/
theorem modifierSelector_mem_variantSelectors :
    modifierSelector m ∈ w.variantSelectors c ↔
      w.policy.variant.mode = .byClass ∧ m ∈ w.modifierTokens c := by
  rw [variantSelectors, mem_unique, List.mem_append]
  cases hv : w.policy.variant.mode with
  | byData =>
    cases hs : w.policy.state.mode <;>
      simp [splitModifiers, hv, hs, modifierSelector_notMem_attributes]
  | byClass =>
    simp [splitModifiers, hv, modifierTokens, List.mem_map, modifierSelector_injective.eq_iff]

/-- Modifiers are states where attributes mark variants and classes mark states. -/
theorem modifierSelector_mem_stateSelectors :
    modifierSelector m ∈ w.stateSelectors c ↔ w.policy.variant.mode = .byData ∧
      w.policy.state.mode = .byClass ∧ m ∈ w.modifierTokens c := by
  rw [stateSelectors, mem_unique, List.mem_append]
  cases hv : w.policy.variant.mode with
  | byData =>
    cases hs : w.policy.state.mode with
    | byData => simp [splitModifiers, hv, hs, modifierSelector_notMem_attributes]
    | byClass =>
      simp [splitModifiers, hv, hs, modifierTokens, List.mem_map,
        modifierSelector_injective.eq_iff]
  | byClass =>
    cases hs : w.policy.state.mode <;>
      simp [splitModifiers, hv, modifierSelector_notMem_attributes]

/-- An attribute of a node is written as a variant just if attributes mark variants. -/
theorem attributeSelector_mem_variantSelectors (ha : a ∈ c.variants) :
    attributeSelector a ∈ w.variantSelectors c ↔ w.policy.variant.mode = .byData := by
  rw [variantSelectors, mem_unique, List.mem_append, or_iff_right attributeSelector_notMem_modifiers]
  cases w.policy.variant.mode with
  | byData => simpa using ⟨a, ha, rfl⟩
  | byClass => simp

theorem attributeSelector_mem_stateSelectors (ha : a ∈ c.states) :
    attributeSelector a ∈ w.stateSelectors c ↔ w.policy.state.mode = .byData := by
  rw [stateSelectors, mem_unique, List.mem_append, or_iff_left attributeSelector_notMem_modifiers]
  cases w.policy.state.mode with
  | byData => simpa using ⟨a, ha, rfl⟩
  | byClass => simp

/-! ## What is written -/

/-- All modifiers are written unless attributes mark both variants and states. -/
theorem writes_modifiers_iff :
    (∀ m ∈ w.modifierTokens c,
        modifierSelector m ∈ w.variantSelectors c ∨ modifierSelector m ∈ w.stateSelectors c) ↔
      ¬ ((w.policy.variant.mode = .byData ∧ w.policy.state.mode = .byData) ∧
        w.modifierTokens c ≠ []) := by
  simp only [modifierSelector_mem_variantSelectors, modifierSelector_mem_stateSelectors]
  cases w.policy.variant.mode with
  | byClass => simp
  | byData =>
    cases w.policy.state.mode with
    | byClass => simp
    | byData => simp [List.eq_nil_iff_forall_not_mem]

theorem writes_variants_iff :
    (∀ a ∈ c.variants, attributeSelector a ∈ w.variantSelectors c) ↔
      ¬ (w.policy.variant.mode = .byClass ∧ c.variants ≠ []) := by
  have hmode : (∀ a ∈ c.variants, attributeSelector a ∈ w.variantSelectors c) ↔
      ∀ a ∈ c.variants, w.policy.variant.mode = .byData :=
    forall₂_congr fun a ha => attributeSelector_mem_variantSelectors ha
  rw [hmode]
  cases w.policy.variant.mode with
  | byData => simp
  | byClass => simp [List.eq_nil_iff_forall_not_mem]

theorem writes_states_iff :
    (∀ a ∈ c.states, attributeSelector a ∈ w.stateSelectors c) ↔
      ¬ (w.policy.state.mode = .byClass ∧ c.states ≠ []) := by
  have hmode : (∀ a ∈ c.states, attributeSelector a ∈ w.stateSelectors c) ↔
      ∀ a ∈ c.states, w.policy.state.mode = .byData :=
    forall₂_congr fun a ha => attributeSelector_mem_stateSelectors ha
  rw [hmode]
  cases w.policy.state.mode with
  | byData => simp
  | byClass => simp [List.eq_nil_iff_forall_not_mem]

/-! ## What is reported -/

section Reported

variable {x : NodeContext}

/-- Whatever the policy: at a Block or an Element, no rule reports a modifier, a variant or a state as
not allowed exactly if the writer has selectors for all of them; and it never has a selector of a
modifier both among the variants and among the states. -/
theorem silent_iff_writesAll (hconventions : x.conventions = w.conventions)
    (hbase : x.baseKind = .own .block ∨ x.baseKind = .own .element) :
    ((¬ Lint.Reported x .disallowedModifier ∧ ¬ Lint.Reported x .disallowedVariantAttribute ∧
        ¬ Lint.Reported x .disallowedStateAttribute) ↔ w.WritesAll x.component) ∧
      ∀ m, ¬ (modifierSelector m ∈ w.variantSelectors x.component ∧
        modifierSelector m ∈ w.stateSelectors x.component) := by
  have hhas : x.hasBase = true := by
    rcases hbase with h | h <;> rw [NodeContext.hasBase, h] <;> rfl
  have hpolicy : x.policy = w.policy := congrArg Conventions.policy hconventions
  have htokens : x.modifierTokens = w.modifierTokens x.component := by
    rw [NodeContext.modifierTokens, NodeContext.naming, NodeContext.external, hconventions]
    rfl
  constructor
  · rw [Lint.reported_disallowedModifier, Lint.reported_disallowedVariantAttribute,
      Lint.reported_disallowedStateAttribute, hhas, hpolicy, htokens]
    simp only [Bool.true_and, Bool.and_eq_true, beq_iff_eq]
    rw [← writes_modifiers_iff, ← writes_variants_iff, ← writes_states_iff]
    exact ⟨fun h => ⟨h.1, h.2.1, h.2.2⟩, fun h => ⟨h.modifiers, h.variants, h.states⟩⟩
  · rintro m ⟨hvariant, hstate⟩
    have hclass := (modifierSelector_mem_variantSelectors.mp hvariant).1
    rw [(modifierSelector_mem_stateSelectors.mp hstate).1] at hclass
    cases hclass

/-- A banner with a modifier and a state, where classes mark variants and attributes mark states. -/
theorem writesAll_of_wide_banner :
    let w : StylesheetWriter := ⟨{}, { variant := { mode := .byClass } }⟩
    let banner : Component := .mk "hero-banner" true ["-wide", "-wide"] []
      [⟨"data-state", "open"⟩] [] [] [] "div" false false
    let x : NodeContext := { conventions := w.conventions, mode := .root, component := banner }
    x.conventions = w.conventions ∧ x.baseKind = .own .block ∧
      w.variantSelectors banner = ["&.-wide"] ∧ w.stateSelectors banner = ["&[data-state=\"open\"]"] ∧
      w.WritesAll banner := by
  intro w banner x
  have hkind : x.baseKind = .own .block := by decide +kernel
  refine ⟨rfl, hkind, by decide +kernel, by decide +kernel, ?_⟩
  have hvariants : x.component.variants = [] := rfl
  have hmode : x.policy.variant.mode = .byClass := rfl
  have hstate : x.policy.state.mode = .byData := rfl
  refine (silent_iff_writesAll (w := w) (x := x) rfl (Or.inl hkind)).1.mp ⟨?_, ?_, ?_⟩
  · simp [Lint.reported_disallowedModifier, hmode]
  · simp [Lint.reported_disallowedVariantAttribute, hvariants]
  · simp [Lint.reported_disallowedStateAttribute, hstate]

end Reported

end BlockMarkup.StylesheetWriter
