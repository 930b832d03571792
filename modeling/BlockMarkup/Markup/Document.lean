import BlockMarkup.Markup.Node
import BlockMarkup.Markup.RootScan

/-! # Documents

Sanitized markup as a tree, and the rules by which the roots of components are chosen.
-/

namespace BlockMarkup.Markup

/-- Whether markup is one component or a whole page, or a selection of components side by side. -/
inductive RootMode where
  | root
  | selection
deriving DecidableEq, Repr

/-- Markup that is read. Markup that is refused counts as empty. -/
structure Document where
  mode : RootMode
  sanitized : List Char
  explicitRoot : Option String
  nodes : List Node
  refusal : Option MarkupError

namespace Document

/-- The element that holds a selection. -/
def wrapperName : String := "wrapper"

/-- The markup as it is sanitized: a selection is wrapped. -/
def wrapped (mode : RootMode) (s : List Char) : List Char :=
  match mode with
  | .root => s
  | .selection => "<wrapper>".toList ++ s ++ "</wrapper>".toList

/-- Reads a document. -/
def read (mode : RootMode) (s : List Char) : Document :=
  let sanitized := sanitize (wrapped mode s)
  match Node.read sanitized with
  | .ok nodes => ⟨mode, sanitized, Markup.explicitRoot sanitized, nodes, none⟩
  | .error e => ⟨mode, sanitized, Markup.explicitRoot sanitized, [], some e⟩

/-- The warnings about a document. -/
def warnings (d : Document) : List String :=
  d.refusal.toList.map fun e =>
    "Markup rejected by the HTML parser, treating it as empty: " ++ e.message

/-- Elements that are never the root of a component. -/
def ignoredRoots : List String :=
  ["template", "textarea", "script", "style", "head", "noscript", "xmp", "listing"]

/-- The elements at the top that could be the root of a component. -/
def rootCandidates (d : Document) : List Node :=
  d.nodes.filter fun n => n.isElement && !ignoredRoots.contains n.name && n.hasClass

/-- Whether the root of the component cannot be told. -/
def hasAmbiguousRoot (d : Document) : Bool :=
  d.explicitRoot.isNone && d.rootCandidates.length > 1

/-- The root: the page or body element that the scan for tags has found, or else the first
element. -/
def rootNode? (d : Document) : Option Node :=
  match d.explicitRoot.bind fun name => Node.findIn? name d.nodes with
  | some n => some n
  | none => d.nodes.find? Node.isElement

/-- The roots of a selection. -/
def selectionRoots (d : Document) : List Node :=
  match Node.findIn? wrapperName d.nodes with
  | none => []
  | some w => w.childElements.filter Node.hasClass

end Document

end BlockMarkup.Markup
