import BlockMarkup.Markup.Token

/-! # Markup trees

The tree that tokens describe. An end tag closes elements up to the nearest one of its name;
nothing else closes an element but the end of the markup.
-/

namespace BlockMarkup.Markup

/-- What stands in markup beside elements. -/
inductive LeafKind where
  | text
  | comment
  | doctype
  | characterData
  | declaration
  | instruction
deriving DecidableEq, Repr

/-- A node of a markup tree. -/
inductive Node where
  | element (name : String) (attributes : Attributes) (children : List Node)
  | leaf (kind : LeafKind) (content : List Char)
deriving Repr

namespace Node

/-- Whether the node is an element. -/
def isElement : Node → Bool
  | .element .. => true
  | .leaf .. => false

/-- The name of an element. -/
def name : Node → String
  | .element n _ _ => n
  | .leaf .. => ""

/-- The attributes of an element. -/
def attributes : Node → Attributes
  | .element _ a _ => a
  | .leaf .. => []

/-- The content of an element. -/
def children : Node → List Node
  | .element _ _ cs => cs
  | .leaf .. => []

/-- The value of an attribute. -/
def attribute? (n : Node) (key : String) : Option String :=
  n.attributes.lookup key

/-- The classes of an element. -/
def classTokens (n : Node) : List String :=
  Text.words ((n.attribute? "class").getD "")

/-- Whether an element has a class. -/
def hasClass (n : Node) : Bool :=
  !Text.allBlank ((n.attribute? "class").getD "")

/-- The elements in the content of an element. -/
def childElements (n : Node) : List Node :=
  n.children.filter isElement

mutual

/-- The first element of a given name in a tree. -/
def find? (name : String) : Node → Option Node
  | .element n a cs => if n = name then some (.element n a cs) else findIn? name cs
  | .leaf .. => none

/-- The first element of a given name in some trees. -/
def findIn? (name : String) : List Node → Option Node
  | [] => none
  | n :: rest =>
    match find? name n with
    | some found => some found
    | none => findIn? name rest

end

/-- Elements that never have content. -/
def voidNames : List String := [
  "area", "base", "basefont", "bgsound", "br", "col", "command", "embed", "frame", "hr", "image",
  "img", "input", "isindex", "keygen", "link", "menuitem", "meta", "nextid", "param", "source",
  "spacer", "track", "wbr"]

/-- Elements in which blanks matter. -/
def preformattedNames : List String := ["pre", "textarea"]

/-- An element that is not closed yet; its content is in reverse order. -/
structure OpenElement where
  name : String
  attributes : Attributes
  content : List Node

namespace OpenElement

/-- The element, closed. -/
def close (e : OpenElement) : Node := .element e.name e.attributes e.content.reverse

end OpenElement

/-- A tree in the making: the open elements, innermost first, the finished nodes outside of them
and the pieces of the current text, all in reverse order, and the void elements whose end tags
are still to be passed over. -/
structure Building where
  opened : List OpenElement := []
  done : List Node := []
  text : List (List Char) := []
  voids : List String := []

namespace Building

/-- Adds a node to the innermost open element. -/
def add (b : Building) (n : Node) : Building :=
  match b.opened with
  | [] => { b with done := n :: b.done }
  | e :: rest => { b with opened := { e with content := n :: e.content } :: rest }

/-- Content as it is kept: blanks alone become a line break or a blank, unless blanks matter. -/
def condense (b : Building) (s : List Char) : List Char :=
  if s.all Text.isMarkupBlank && !b.opened.any fun e => preformattedNames.contains e.name then
    if s.contains '\n' then ['\n'] else [' ']
  else s

/-- Ends the current text. -/
def endText (b : Building) : Building :=
  if b.text.isEmpty then b
  else { b.add (.leaf .text (b.condense b.text.reverse.flatten)) with text := [] }

/-- Adds something that is neither element nor text. -/
def addLeaf (b : Building) (kind : LeafKind) (s : List Char) : Building :=
  b.endText.add (.leaf kind (b.endText.condense s))

/-- Opens an element. -/
def openElement (b : Building) (name : String) (attributes : Attributes) : Building :=
  { b.endText with opened := ⟨name, attributes, []⟩ :: b.endText.opened }

/-- Closes the innermost open element. -/
def closeInnermost (b : Building) : Building :=
  match b.opened with
  | [] => b
  | e :: rest => { b with opened := rest }.add e.close

/-- Closes a number of elements. -/
def closeMany : Nat → Building → Building
  | 0, b => b
  | n + 1, b => closeMany n b.closeInnermost

/-- Closes elements up to the innermost one of a name; if none is open, nothing happens. -/
def closeNamed (b : Building) (name : String) : Building :=
  match b.opened.findIdx? (·.name = name) with
  | none => b
  | some n => closeMany (n + 1) b

/-- Handles an end tag: one for a void element is passed over. -/
def endElement (b : Building) (name : String) : Building :=
  if b.voids.contains name then { b with voids := b.voids.erase name }
  else b.endText.closeNamed name

/-- The kind and the content of a marked section. -/
def sectionLeaf (s : List Char) : LeafKind × List Char :=
  if (s.take 6).map Char.toUpper = "CDATA[".toList then (.characterData, s.drop 6)
  else (.declaration, s)

/-- Adds what a token describes. -/
def step (b : Building) : Token → Building
  | .startTag name attributes =>
    let b := b.openElement name attributes
    if voidNames.contains name then { b.closeInnermost with voids := name :: b.voids } else b
  | .emptyTag name attributes => (b.openElement name attributes).endElement name
  | .endTag name => b.endElement name
  | .text s => { b with text := s :: b.text }
  | .comment s => b.addLeaf .comment s
  | .doctype s => b.addLeaf .doctype s
  | .section s => b.addLeaf (sectionLeaf s).1 (sectionLeaf s).2
  | .instruction s => b.addLeaf .instruction s

/-- The nodes of a tree in the making, all elements closed. -/
def finish (b : Building) : List Node :=
  let b := b.endText
  (closeMany b.opened.length b).done.reverse

end Building

/-- The trees that tokens describe. -/
def ofTokens (tokens : List Token) : List Node :=
  (tokens.foldl Building.step {}).finish

/-- Reads markup. -/
def read (s : List Char) : Except MarkupError (List Node) :=
  (Token.read s).map ofTokens

end Node

end BlockMarkup.Markup
