import BlockMarkup.Component.Build
import BlockMarkup.Markup.Document

/-! # What a rule sees of a node

A node with its surroundings, and how its classes are understood.
-/

namespace BlockMarkup

open Markup (RootMode)

/-- A node under lint: its component, the base class of the node above it, whether a Block stands
anywhere above it, and whether it is the root. -/
structure NodeContext where
  conventions : Conventions
  mode : RootMode
  component : Component
  parentBase : Option String := none
  insideBlock : Bool := false
  atRoot : Bool := false

namespace NodeContext

/-- The naming rules. -/
def naming (x : NodeContext) : NamingOptions := x.conventions.naming

/-- The third-party classes. -/
def external (x : NodeContext) : ExternalOptions := x.conventions.external

/-- The selector policy. -/
def policy (x : NodeContext) : SelectorPolicy := x.conventions.policy

/-- The base class. -/
def base (x : NodeContext) : String := x.component.base

/-- The kind of the base class. -/
def baseKind (x : NodeContext) : ClassKind := x.naming.classifyWith x.external x.base

/-- Whether the base class is a third-party class. -/
def hasExternalBase (x : NodeContext) : Bool := x.baseKind == .external

/-- Whether the base class is a Block or an Element. -/
def hasBase (x : NodeContext) : Bool :=
  x.baseKind == .own .block || x.baseKind == .own .element

/-- What the node is behind a third-party base class. -/
def inferredKind (x : NodeContext) : Option BaseKind :=
  if x.hasExternalBase then x.naming.inferredKind x.external x.component.modifiers else none

/-- Whether the node counts as a Block. -/
def actsAsBlock (x : NodeContext) : Bool :=
  match x.inferredKind with
  | some k => k == .block
  | none => x.baseKind == .own .block

/-- Whether classes of the project stand behind a third-party base class. -/
def hasOwnClass (x : NodeContext) : Bool :=
  x.hasExternalBase && x.component.modifiers.any fun t => !x.external.covers t

/-- The modifiers of the node. -/
def modifierTokens (x : NodeContext) : List String :=
  x.naming.modifiersOf x.external x.component.modifiers

/-- Whether the base class has the form of a modifier. -/
def baseIsModifier (x : NodeContext) : Bool :=
  x.naming.modifierMatches x.base && !x.external.covers x.base

/-- All classes of the node, as they are shown. -/
def classList (x : NodeContext) : String := " ".intercalate x.component.classes

end NodeContext

end BlockMarkup
