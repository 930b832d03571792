import BlockMarkup.Text.Case
import BlockMarkup.Unique
import BlockMarkup.Markup.Sanitize

/-! # Scanning for tags

Looks at the tags of a text without parsing it: whether a whole page is given, and whether start
and end tags are balanced.
-/

namespace BlockMarkup.Markup

open BlockMarkup.Regex (CharSet)

namespace Pattern

/-- A comment. -/
def comment : Regex := enclosed "<!--" "-->"

/-- The inside of a quoted value, in which a backslash escapes any character but a line feed. -/
def escapedUpTo (q : Char) : Regex :=
  .loop ((char '\\' ++ .one (CharSet.single '\n').not).alt (.one (CharSet.ofList [q, '\\']).not))
    0 none .greedy

/-- A quoted value after its sign. -/
def quotedValue : Regex :=
  char '=' ++ .blanks ++
    (char '"' ++ escapedUpTo '"' ++ char '"').alt (char '\'' ++ escapedUpTo '\'' ++ char '\'')

/-- An element whose content is text or is not rendered. -/
def textContainer : Regex :=
  rawElement ["template", "textarea", "noscript", "xmp", "listing", "foreignObject"]

/-- A tag; its name is group 1. -/
def tag : Regex :=
  char '<' ++ .opt (char '/') ++
    .group 1 (.one ((CharSet.between 'A' 'Z').or (.between 'a' 'z')) ++
      .many ((CharSet.ofKind .word).or (.ofList [':', '-']))) ++
    .opt (.one (.ofKind .blank) ++ .few (CharSet.ofList ['<', '>']).not) ++ char '>'

end Pattern

/-- Removes all that can hold text like tags without being structure. -/
def stripForRootScan (s : List Char) : List Char :=
  let s := removeEach [Pattern.comment, Pattern.characterData, Pattern.scriptOrStyle] s
  let s := Pattern.quotedValue.replaceAll (fun _ => "=\"\"".toList) s
  Pattern.textContainer.removeAll s

/-- A tag as the scan sees it. -/
structure TagMark where
  name : String
  closing : Bool
  selfClosing : Bool
deriving DecidableEq, Repr

namespace TagMark

/-- The mark of a matched tag. -/
def ofMatch (m : Regex.Match) : TagMark :=
  ⟨Text.lower (String.ofList (m.group 1)), "</".toList.isPrefixOf m.text,
    "/>".toList.isSuffixOf m.text⟩

/-- Elements that never have content. -/
def voidNames : List String :=
  ["area", "base", "br", "col", "embed", "hr", "img", "input", "link", "meta", "param", "source",
    "track", "wbr"]

/-- Whether the tag opens an element that has to be closed. -/
def opens (t : TagMark) : Bool :=
  !t.closing && !t.selfClosing && !voidNames.contains t.name

end TagMark

/-- The tags of a text, in order. -/
def tagMarks (s : List Char) : List TagMark :=
  (Pattern.tag.allMatches (stripForRootScan s)).map .ofMatch

/-- The first page or body tag that opens at depth zero. -/
def explicitRootFrom : Nat → List TagMark → Option String
  | _, [] => none
  | depth, t :: rest =>
    if t.closing then explicitRootFrom (depth - 1) rest
    else if !t.opens then explicitRootFrom depth rest
    else if depth = 0 ∧ (t.name = "html" ∨ t.name = "body") then some t.name
    else explicitRootFrom (depth + 1) rest

/-- The page or body tag that opens at depth zero of a text. -/
def explicitRoot (s : List Char) : Option String :=
  explicitRootFrom 0 (tagMarks s)

/-- Tags that are opened and not closed, and tags that are closed and not open. -/
structure UnbalancedTags where
  missing : List String
  unexpected : List String
deriving DecidableEq, Repr

namespace UnbalancedTags

/-- What is told about the tags. -/
def message (u : UnbalancedTags) : String :=
  let missing :=
    if u.missing.isEmpty then [] else ["Missing closing tags: " ++ ", ".intercalate u.missing]
  let unexpected :=
    if u.unexpected.isEmpty then []
    else ["Unexpected closing tags: " ++ ", ".intercalate u.unexpected]
  match missing ++ unexpected with
  | [] => "HTML tags are not balanced."
  | parts => "HTML tags are not balanced. " ++ " / ".intercalate parts

end UnbalancedTags

/-- End tags that may stand where nothing is open. -/
def pageTags : List String := ["html", "body", "head"]

/-- The tags without a partner, in the order in which that shows. `stack` holds the names of the
open elements, innermost first. -/
def unpaired : List String → List TagMark → UnbalancedTags
  | stack, [] => ⟨stack, []⟩
  | stack, t :: rest =>
    if !t.closing then unpaired (if t.opens then t.name :: stack else stack) rest
    else if stack.contains t.name then
      let u := unpaired ((stack.dropWhile (· != t.name)).drop 1) rest
      { u with missing := stack.takeWhile (· != t.name) ++ u.missing }
    else
      let u := unpaired stack rest
      if stack.isEmpty && pageTags.contains t.name then u
      else { u with unexpected := t.name :: u.unexpected }

/-- The tags of a text that have no partner, each name once; none if all have one. -/
def unbalancedTags (s : List Char) : Option UnbalancedTags :=
  let u := unpaired [] (tagMarks s)
  if u.missing.isEmpty && u.unexpected.isEmpty then none
  else some ⟨unique u.missing, unique u.unexpected⟩

end BlockMarkup.Markup
