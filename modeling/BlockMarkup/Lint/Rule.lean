import BlockMarkup.Lint.Context
import BlockMarkup.Lint.Issue

/-! # Lint rules

The rules for single nodes, in four sets. Every rule says what it finds about a node; a rule that
checks values fails if the pattern for values has too large a repetition.
-/

namespace BlockMarkup

/-- A rule for single nodes. -/
structure Rule where
  name : String
  codes : List IssueCode
  check : NodeContext → Except Regex.ReadError (List Finding)

/-- Rules on one subject, and where they stand among the others. -/
structure RuleSet where
  name : String
  order : Nat
  rules : List Rule

namespace Rule

/-- Quotes a name inside a message. -/
def inQuotes (s : String) : String := "\"" ++ s ++ "\""

/-! ## Base classes -/

/-- A third-party class must not come before classes of the project. -/
def externalBase (x : NodeContext) : List Finding :=
  if x.hasOwnClass then
    [⟨.invalidBaseClass, "External class " ++ inQuotes x.base ++
      " cannot be used as the base class. " ++
      (if x.inferredKind.isSome then "Place Block/Element first."
        else "No Block/Element class found.")⟩]
  else []

/-- The first class must be a Block or an Element. -/
def invalidBase (x : NodeContext) : List Finding :=
  if x.baseKind = .own .invalid then
    [⟨.invalidBaseClass,
      "Invalid base class " ++ inQuotes x.base ++ " (must be Block or Element)."⟩]
  else []

/-! ## Selector attributes -/

/-- Attributes mark variants only where the policy asks for attributes. -/
def variantAttributeAllowed (x : NodeContext) : List Finding :=
  if x.hasBase && x.policy.variant.mode == .byClass then
    x.component.variants.map fun a =>
      ⟨.disallowedVariantAttribute, "Variant attribute " ++ inQuotes a.key ++
        " is not allowed when selectorPolicy.variant.mode is \"class\"."⟩
  else []

/-- Attributes mark states only where the policy asks for attributes. -/
def stateAttributeAllowed (x : NodeContext) : List Finding :=
  if x.hasBase && x.policy.state.mode == .byClass then
    x.component.states.map fun a =>
      ⟨.disallowedStateAttribute, "State attribute " ++ inQuotes a.key ++
        " is not allowed when selectorPolicy.state.mode is \"class\"."⟩
  else []

/-- The findings about attributes whose values do not match; empty values are not looked at. -/
def badValues (code : IssueCode) (pattern : NamePattern) (attributes : List AttributeSelector) :
    List Finding :=
  (attributes.filter fun a => a.value != "" && !pattern.matchesName a.value).map fun a =>
    ⟨code, "Attribute " ++ inQuotes a.key ++ " value " ++ inQuotes a.value ++
      " does not match selectorPolicy valueNaming."⟩

/-- Values of variants must be named as the policy says. -/
def variantValues (x : NodeContext) : Except Regex.ReadError (List Finding) :=
  if x.hasBase && x.policy.variant.mode == .byData then
    x.policy.variant.valueNaming.pattern.map fun p =>
      badValues .invalidVariantValue p x.component.variants
  else .ok []

/-- Values of states must be named as the policy says, those of accessibility attributes apart. -/
def stateValues (x : NodeContext) : Except Regex.ReadError (List Finding) :=
  if x.hasBase && x.policy.state.mode == .byData then
    x.policy.state.valueNaming.pattern.map fun p =>
      badValues .invalidStateValue p
        (x.component.states.filter fun a => "data-".toList.isPrefixOf a.key.toList)
  else .ok []

/-! ## Modifiers -/

/-- Modifiers have no use where attributes mark both variants and states. -/
def modifierAllowed (x : NodeContext) : List Finding :=
  if x.hasBase && x.policy.variant.mode == .byData && x.policy.state.mode == .byData then
    x.modifierTokens.map fun m =>
      ⟨.disallowedModifier, "Modifier " ++ inQuotes m ++
        " is not allowed when selectorPolicy variant/state are both \"data\"."⟩
  else []

/-- A modifier needs a Block or an Element beside it. -/
def modifierHasBase (x : NodeContext) : List Finding :=
  if !x.hasExternalBase && !x.hasBase && (!x.modifierTokens.isEmpty || x.baseIsModifier) then
    [⟨.modifierWithoutBase,
      "Modifier class used without Block/Element base (classes: " ++ inQuotes x.classList ++
        ")."⟩]
  else []

/-- A utility class needs a Block or an Element beside it. -/
def utilityHasBase (x : NodeContext) : List Finding :=
  if !x.hasExternalBase && !x.hasBase &&
      x.component.classes.any fun t => "u-".toList.isPrefixOf t.toList then
    [⟨.utilityWithoutBase,
      "Utility class used without Block/Element base (classes: " ++ inQuotes x.classList ++
        ")."⟩]
  else []

/-- An element carries one Block or Element only; the first other one is reported. -/
def singleBase (x : NodeContext) : List Finding :=
  if x.hasBase then
    match x.component.modifiers.find? fun t =>
      !x.external.covers t && (x.naming.isBlock t || x.naming.isElement t) with
    | some other =>
      [⟨.multipleBaseClasses, "Multiple Block/Element-like classes on the same element (" ++
        inQuotes x.base ++ ", " ++ inQuotes other ++ ")."⟩]
    | none => []
  else []

/-! ## Hierarchy -/

/-- The root of a component is a Block. -/
def rootIsBlock (x : NodeContext) : List Finding :=
  if !x.hasExternalBase && x.mode == .root && x.atRoot && x.baseKind != .own .block then
    [⟨.rootNotBlock, "Root element base class " ++ inQuotes x.base ++ " must be a Block."⟩]
  else []

/-- An Element stands inside a Block. -/
def elementHasBlock (x : NodeContext) : List Finding :=
  if x.baseKind == .own .element && !x.insideBlock then
    [⟨.elementWithoutBlockAncestor,
      "Element " ++ inQuotes x.base ++ " does not have any Block ancestor."⟩]
  else []

/-- A Block does not stand directly under an Element. -/
def blockParent (x : NodeContext) : List Finding :=
  match x.parentBase with
  | some parent =>
    if x.baseKind == .own .block &&
        x.naming.classifyWith x.external parent == .own .element then
      [⟨.elementParentOfBlock, "Block " ++ inQuotes x.base ++
        " cannot be nested directly under Element " ++ inQuotes parent ++ "."⟩]
    else []
  | none => []

/-! ## The rules in order -/

/-- A rule that cannot fail. -/
def plain (name : String) (codes : List IssueCode) (check : NodeContext → List Finding) : Rule :=
  ⟨name, codes, fun x => .ok (check x)⟩

/-- The rules on base classes. -/
def baseClassRules : RuleSet := ⟨"base_class", 10, [
  plain "check_external_base" [.invalidBaseClass] externalBase,
  plain "check_invalid_base" [.invalidBaseClass] invalidBase]⟩

/-- The rules on selector attributes. -/
def attributeRules : RuleSet := ⟨"selector_attributes", 20, [
  plain "check_variant_attribute_allowed" [.disallowedVariantAttribute] variantAttributeAllowed,
  plain "check_state_attribute_allowed" [.disallowedStateAttribute] stateAttributeAllowed,
  ⟨"check_variant_values", [.invalidVariantValue], variantValues⟩,
  ⟨"check_state_values", [.invalidStateValue], stateValues⟩]⟩

/-- The rules on modifiers. -/
def modifierRules : RuleSet := ⟨"modifiers", 30, [
  plain "check_modifier_allowed" [.disallowedModifier] modifierAllowed,
  plain "check_modifier_has_base" [.modifierWithoutBase] modifierHasBase,
  plain "check_utility_has_base" [.utilityWithoutBase] utilityHasBase,
  plain "check_single_base" [.multipleBaseClasses] singleBase]⟩

/-- The rules on hierarchy. -/
def hierarchyRules : RuleSet := ⟨"hierarchy", 40, [
  plain "check_root_is_block" [.rootNotBlock] rootIsBlock,
  plain "check_element_has_block" [.elementWithoutBlockAncestor] elementHasBlock,
  plain "check_block_parent" [.elementParentOfBlock] blockParent]⟩

end Rule

namespace RuleSet

/-- All sets, in order. -/
def all : List RuleSet :=
  [Rule.baseClassRules, Rule.attributeRules, Rule.modifierRules, Rule.hierarchyRules]

/-- The names of the issues that a set can report, sorted. -/
def codeNames (s : RuleSet) : List String :=
  (unique (s.rules.flatMap fun r => r.codes.map IssueCode.name)).mergeSort (· ≤ ·)

end RuleSet

namespace Rule

/-- All rules, in order. -/
def all : List Rule := RuleSet.all.flatMap RuleSet.rules

/-- The names of the issues that the rules can report, sorted. -/
def codeNames : List String :=
  (unique (RuleSet.all.flatMap RuleSet.codeNames)).mergeSort (· ≤ ·)

end Rule

end BlockMarkup
