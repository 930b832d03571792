/-! # Lint issues

What can be wrong with the structure of components in markup.
-/

namespace BlockMarkup

/-- The kinds of issues. -/
inductive IssueCode where
  | invalidBaseClass
  | disallowedVariantAttribute
  | disallowedStateAttribute
  | invalidVariantValue
  | invalidStateValue
  | disallowedModifier
  | modifierWithoutBase
  | utilityWithoutBase
  | multipleBaseClasses
  | rootNotBlock
  | elementWithoutBlockAncestor
  | elementParentOfBlock
  | multipleRootElements
  | unbalancedHtml
deriving DecidableEq, Repr

namespace IssueCode

/-- The name under which an issue is reported. -/
def name : IssueCode → String
  | .invalidBaseClass => "INVALID_BASE_CLASS"
  | .disallowedVariantAttribute => "DISALLOWED_VARIANT_ATTRIBUTE"
  | .disallowedStateAttribute => "DISALLOWED_STATE_ATTRIBUTE"
  | .invalidVariantValue => "INVALID_VARIANT_VALUE"
  | .invalidStateValue => "INVALID_STATE_VALUE"
  | .disallowedModifier => "DISALLOWED_MODIFIER"
  | .modifierWithoutBase => "MODIFIER_WITHOUT_BASE"
  | .utilityWithoutBase => "UTILITY_WITHOUT_BASE"
  | .multipleBaseClasses => "MULTIPLE_BASE_CLASSES"
  | .rootNotBlock => "ROOT_NOT_BLOCK"
  | .elementWithoutBlockAncestor => "ELEMENT_WITHOUT_BLOCK_ANCESTOR"
  | .elementParentOfBlock => "ELEMENT_PARENT_OF_BLOCK"
  | .multipleRootElements => "MULTIPLE_ROOT_ELEMENTS"
  | .unbalancedHtml => "UNBALANCED_HTML"

end IssueCode

/-- A finding of a rule about one node. -/
structure Finding where
  code : IssueCode
  message : String
deriving DecidableEq, Repr

/-- An issue: a finding, the node it is about, and the base classes from the root down to that
node. Both are empty for the document as a whole. -/
structure Issue where
  code : IssueCode
  message : String
  base : String := ""
  path : List String := []
deriving DecidableEq, Repr

namespace Issue

/-- The path as it is shown. -/
def location (i : Issue) : String :=
  let path := " > ".intercalate i.path
  if path.isEmpty then "(root)" else path

end Issue

end BlockMarkup
