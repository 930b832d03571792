import BlockMarkup.Markup.Node

/-! # Writing markup

The text of a markup tree. Attributes are sorted by name, and characters are escaped where they
would be taken for markup.
-/

namespace BlockMarkup.Markup

/-- A character of text or of a value. -/
def escapeChar (c : Char) : List Char :=
  if c = '&' then "&amp;".toList
  else if c = '<' then "&lt;".toList
  else if c = '>' then "&gt;".toList
  else [c]

/-- Text without characters that would be taken for markup. -/
def escapeText (s : List Char) : List Char := s.flatMap escapeChar

/-- A value in quotes: double ones, or single ones if it holds double quotes only. -/
def quoteValue (s : List Char) : List Char :=
  let s := escapeText s
  if s.contains '"' then
    if s.contains '\'' then
      '"' :: s.flatMap (fun c => if c = '"' then "&quot;".toList else [c]) ++ ['"']
    else '\'' :: s ++ ['\'']
  else '"' :: s ++ ['"']

/-- The order of attributes. -/
def attributeLE (a b : String × String) : Bool := a.1 ≤ b.1

/-- The declared encoding in a content type. -/
def charsetPattern : Regex :=
  .group 1 ((Regex.anchor .lineStart).alt (.one ((Regex.CharSet.ofKind .blank).or (.single ';'))) ++
    .text "charset=") ++ .allBut ';'

/-- The attributes as they are written: an encoding that the markup declares is that of the
written text. -/
def declaredAttributes (name : String) (attributes : Attributes) : Attributes :=
  let value (key : String) := attributes.lookup key
  if name ≠ "meta" then attributes
  else if (value "charset").isSome then
    attributes.map fun (k, v) => if k = "charset" then (k, "utf-8") else (k, v)
  else if (value "http-equiv").any (Text.lower · = "content-type") then
    attributes.map fun (k, v) =>
      if k = "content" then
        (k, String.ofList (charsetPattern.replaceAll (fun m => m.group 1 ++ "utf-8".toList)
          v.toList))
      else (k, v)
  else attributes

/-- The attributes of a tag. -/
def renderAttributes (name : String) (attributes : Attributes) : List Char :=
  ((declaredAttributes name attributes).mergeSort attributeLE).flatMap fun (k, v) =>
    ' ' :: k.toList ++ '=' :: quoteValue v.toList

/-- Elements whose text is written as it is. -/
def verbatimNames : List String := ["script", "style"]

/-- The text of a leaf; `verbatim` says that its element holds raw text. -/
def renderLeaf (verbatim : Bool) (kind : LeafKind) (s : List Char) : List Char :=
  match kind with
  | .text => if verbatim then s else escapeText s
  | .comment => "<!--".toList ++ s ++ "-->".toList
  | .doctype => "<!DOCTYPE ".toList ++ s ++ ">\n".toList
  | .characterData => "<![CDATA[".toList ++ s ++ "]]>".toList
  | .declaration => "<?".toList ++ s ++ "?>".toList
  | .instruction => "<?".toList ++ s ++ ">".toList

mutual

/-- The text of a node. -/
def renderNode (verbatim : Bool) : Node → List Char
  | .leaf kind s => renderLeaf verbatim kind s
  | .element name attributes children =>
    let start := '<' :: name.toList ++ renderAttributes name attributes
    if children.isEmpty && Node.voidNames.contains name then start ++ "/>".toList
    else
      start ++ '>' :: renderNodes (verbatimNames.contains name) children ++
        "</".toList ++ name.toList ++ ['>']

/-- The text of the content of an element. -/
def renderNodes (verbatim : Bool) : List Node → List Char
  | [] => []
  | n :: rest => renderNode verbatim n ++ renderNodes verbatim rest

end

end BlockMarkup.Markup
