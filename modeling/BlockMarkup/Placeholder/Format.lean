import BlockMarkup.Markup.ClassBinding
import BlockMarkup.Markup.Render
import BlockMarkup.Naming.Kind
import BlockMarkup.Placeholder.Name

/-! # Formatting with placeholders

Adds placeholder classes to markup so that it becomes Blocks with Elements below them. Roots
become Blocks; below a root, Elements with content become Blocks, and what is neither Block nor
Element becomes a Block if it has content and an Element if it has none.
-/

namespace BlockMarkup

open Markup (Node Attributes ClassAttribute)

/-- How markup is formatted. -/
structure FormatOptions where
  naming : NamingOptions := {}
  classAttribute : ClassAttribute := .plain

namespace FormatOptions

/-- Content from this depth on is left alone. -/
def maxDepth : Nat := 256

/-- The attribute in which an element carries its classes, and its value. -/
def classSlot (o : FormatOptions) (attributes : Attributes) : String × String :=
  match attributes.lookup ClassAttribute.internalName with
  | some v => (ClassAttribute.internalName, v)
  | none =>
    match attributes.lookup "class", o.classAttribute with
    | some v, _ => ("class", v)
    | none, .plain => ("class", "")
    | none, .camel => (ClassAttribute.internalName, "")

/-- What becomes of an element: its new classes, if they change, and whether its content is
looked at. -/
structure Decision where
  classes : Option (List String)
  descends : Bool

/-- What becomes of a root. -/
def decideRoot (o : FormatOptions) (classes : List String) : Decision :=
  match o.naming.classify (classes.headD "") with
  | .block => ⟨none, true⟩
  | _ => ⟨Placeholder.putFirst? (Placeholder.block o.naming) classes, true⟩

/-- What becomes of an element below a root. -/
def decideInner (o : FormatOptions) (classes : List String) (hasContent : Bool) : Decision :=
  let base := classes.headD ""
  match o.naming.classify base, hasContent with
  | .block, _ => ⟨none, true⟩
  | .element, true => ⟨some (Placeholder.blockOf o.naming base :: classes.tail), true⟩
  | .element, false => ⟨none, false⟩
  | .invalid, true => ⟨Placeholder.putFirst? (Placeholder.block o.naming) classes, true⟩
  | .invalid, false => ⟨Placeholder.putFirst? (Placeholder.element o.naming) classes, false⟩

/-- The attributes with new classes. -/
def applyClasses (o : FormatOptions) (attributes : Attributes) (d : Decision) : Attributes :=
  match d.classes with
  | none => attributes
  | some cs => Markup.setAttribute (o.classSlot attributes).1 (" ".intercalate cs) attributes

/-- The number of elements that a decision changes. -/
def Decision.changes (d : Decision) : Nat := if d.classes.isSome then 1 else 0

mutual

/-- Formats an element below a root, and counts the changed elements. -/
def formatInner (o : FormatOptions) (depth : Nat) : Node → Node × Nat
  | .leaf kind s => (.leaf kind s, 0)
  | .element name attributes children =>
    let d := o.decideInner (Text.words (o.classSlot attributes).2) (children.any Node.isElement)
    let (children, n) :=
      if d.descends && depth + 1 < maxDepth then formatContent o (depth + 1) children
      else (children, 0)
    (.element name (o.applyClasses attributes d) children, d.changes + n)

/-- Formats the content of an element. -/
def formatContent (o : FormatOptions) (depth : Nat) : List Node → List Node × Nat
  | [] => ([], 0)
  | x :: rest =>
    let (x, n) := formatInner o depth x
    let (rest, m) := formatContent o depth rest
    (x :: rest, n + m)

end

/-- Formats a root. -/
def formatRoot (o : FormatOptions) : Node → Node × Nat
  | .leaf kind s => (.leaf kind s, 0)
  | .element name attributes children =>
    let d := o.decideRoot (Text.words (o.classSlot attributes).2)
    let (children, n) := formatContent o 1 children
    (.element name (o.applyClasses attributes d) children, d.changes + n)

/-- Formats roots side by side. -/
def formatRoots (o : FormatOptions) : List Node → List Node × Nat
  | [] => ([], 0)
  | x :: rest =>
    let (x, n) := o.formatRoot x
    let (rest, m) := formatRoots o rest
    (x :: rest, n + m)

/-- The element that holds the markup while it is formatted. -/
def wrapperName : String := "spiracss-internal-wrapper"

/-- Markup inside the wrapper. -/
def wrapped (s : List Char) : List Char :=
  '<' :: wrapperName.toList ++ '>' :: s ++ "</".toList ++ wrapperName.toList ++ ['>']

end FormatOptions

/-- What formatting does to markup. -/
inductive FormatOutcome where
  /-- The markup is a template and stays as it is. -/
  | template
  /-- There is no element. -/
  | noElement
  /-- Placeholders are in place: how many elements have changed, whether the class attribute has
  changed its name, and the new markup. -/
  | placed (changes : Nat) (respelled : Bool) (markup : List Char)

namespace FormatOutcome

/-- The number of changes, the name of the class attribute being one. -/
def changeCount : FormatOutcome → Nat
  | .placed changes respelled _ => if respelled then changes + 1 else changes
  | _ => 0

/-- Whether the markup is a template. -/
def isTemplate : FormatOutcome → Bool
  | .template => true
  | _ => false

/-- The formatted markup; without a change it is the given one, character by character. -/
def result (given : List Char) : FormatOutcome → List Char
  | .placed 0 false _ => given
  | .placed _ _ markup => markup
  | _ => given

end FormatOutcome

namespace FormatOptions

/-- Formats markup. -/
def format (o : FormatOptions) (s : List Char) : Except Markup.MarkupError FormatOutcome :=
  if Markup.hasTemplateSyntax s then .ok .template
  else
    let readable := Markup.readableClasses o.classAttribute s
    (Node.read (wrapped readable.markup)).map fun nodes =>
      match Node.findIn? wrapperName nodes with
      | none => .noElement
      | some w =>
        if w.childElements.isEmpty then .noElement
        else
          let (nodes, changes) := o.formatRoots w.children
          .placed changes readable.respelled
            ((Regex.text ClassAttribute.internalName).replaceAll
              (fun _ => o.classAttribute.name.toList) (Markup.renderNodes false nodes))

end FormatOptions

end BlockMarkup
