import BlockMarkup.Component.Merge
import BlockMarkup.Markup.Node
import BlockMarkup.Naming.Kind
import BlockMarkup.Selector.Policy

/-! # Building component trees

Turns an element into its component tree. Elements without classes vanish; the classed ones below
them come up to the next classed element above.
-/

namespace BlockMarkup

/-- The conventions of a project that say how markup is read as components. -/
structure Conventions where
  naming : NamingOptions := {}
  policy : SelectorPolicy := {}
  external : ExternalOptions := {}

namespace Conventions

/-- Elements from this depth on are left out. -/
def maxDepth : Nat := 256

/-- Attributes that mark neither variants nor states. -/
def skippedAttributes : List String := ["class", "data-spiracss-classname"]

/-- The attributes that a test reserves, as selectors. -/
def selectorsOf (reserved : String → Bool) (attributes : List (String × String)) :
    List AttributeSelector :=
  AttributeSelector.dedup
    ((attributes.filter fun a => !skippedAttributes.contains a.1 && reserved a.1).map
      fun a => ⟨a.1, Text.trimmed a.2⟩)

/-- The attributes that mark variants. -/
def variantsOf (c : Conventions) (attributes : List (String × String)) : List AttributeSelector :=
  selectorsOf c.policy.isVariantKey attributes

/-- The attributes that mark states. -/
def statesOf (c : Conventions) (attributes : List (String × String)) : List AttributeSelector :=
  selectorsOf c.policy.isStateKey attributes

/-- Whether a base class makes its node a Block. -/
def isIndependent (c : Conventions) (base : String) : Bool :=
  !c.external.covers base && c.naming.isBlock base

/-- The node for an element with given classes and the nodes found below it. -/
def component (c : Conventions) (name : String) (attributes : List (String × String))
    (base : String) (modifiers : List String) (found : List Component) : Component :=
  let merged := Component.dedup found
  .mk base (c.isIndependent base) modifiers (c.variantsOf attributes) (c.statesOf attributes)
    (merged.filter (!·.independent)) (merged.filter (·.independent)) merged name false false

open Markup (Node)

mutual

/-- The component tree of an element at a depth; none if it has no class or is too deep. -/
def build (c : Conventions) (depth : Nat) : Node → Option Component
  | .leaf .. => none
  | .element name attributes children =>
    if depth ≥ maxDepth then none
    else
      match Text.words ((attributes.lookup "class").getD "") with
      | [] => none
      | base :: modifiers =>
        some (c.component name attributes base modifiers (found c (depth + 1) false children))

/-- The nodes that come up from below an element without classes. -/
def below (c : Conventions) (depth : Nat) : Node → List Component
  | .leaf .. => []
  | .element _ _ children => if depth ≥ maxDepth then [] else found c (depth + 1) true children

/-- The nodes found among the children of an element; `deep` says that it has no class. -/
def found (c : Conventions) (depth : Nat) (deep : Bool) : List Node → List Component
  | [] => []
  | n :: rest =>
    (match build c depth n with
      | some x => [if deep then x.markDeep else x]
      | none => below c depth n) ++ found c depth deep rest

end

end Conventions

end BlockMarkup
