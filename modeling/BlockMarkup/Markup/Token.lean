import BlockMarkup.Text.Quoted
import BlockMarkup.Text.Case
import BlockMarkup.Markup.CharRef
import BlockMarkup.Markup.Sanitize

/-! # Markup tokens

Cuts markup into tags, text, comments and declarations. Almost every text can be cut; only marked
sections of an unknown kind are refused.
-/

namespace BlockMarkup.Markup

open BlockMarkup.Regex (CharSet Cursor)

/-- The attributes of a tag: names in order of first appearance, each with its last value. -/
abbrev Attributes := List (String × String)

/-- Sets an attribute: a known one keeps its place, a new one comes last. -/
def setAttribute (name value : String) : Attributes → Attributes
  | [] => [(name, value)]
  | (n, v) :: rest =>
    if n = name then (n, value) :: rest else (n, v) :: setAttribute name value rest

/-- The units of markup. -/
inductive Token where
  | startTag (name : String) (attributes : Attributes)
  /-- A tag that ends its element at once. -/
  | emptyTag (name : String) (attributes : Attributes)
  | endTag (name : String)
  | text (s : List Char)
  | comment (s : List Char)
  | doctype (s : List Char)
  /-- A marked section. -/
  | section (s : List Char)
  | instruction (s : List Char)
deriving DecidableEq, Repr

/-- Why markup is refused. -/
inductive MarkupError where
  | unknownSection (keyword : List Char)
  | missingName (text : List Char)
deriving DecidableEq, Repr

namespace MarkupError

/-- What is wrong with the markup. -/
def cause : MarkupError → String
  | .unknownSection keyword =>
    "unknown status keyword " ++ String.ofList (Text.quoted keyword) ++ " in marked section"
  | .missingName text => "expected name token at " ++ String.ofList (Text.quoted text)

/-- What is told about the markup. -/
def message (e : MarkupError) : String :=
  "The markup you provided was rejected by the parser. Trying a different parser or a different " ++
    "encoding may help.\n\nOriginal exception(s) from parser:\n AssertionError: " ++ e.cause

end MarkupError

namespace Pattern

/-- ASCII letters. -/
def letterSet : CharSet := (CharSet.between 'a' 'z').or (.between 'A' 'Z')

/-- Characters inside the name of a tag. -/
def tagNameSet : CharSet := (CharSet.ofList ['\t', '\n', '\r', '\x0c', ' ', '/', '>', '\x00']).not

/-- Blanks and slashes after the parts of a tag; a slash that ends the tag does not count. -/
def tagGap : Regex :=
  .loop (.alt (.one (.ofKind .blank)) (char '/' ++ .look none true (char '>'))) 0 none .greedy

/-- The name of a tag, which is group 1, and what separates it from the rest. -/
def tagName : Regex := .group 1 (.one letterSet ++ .many tagNameSet) ++ tagGap

/-- The name of an attribute. A quote, blank or slash stands before it. -/
def attributeName : Regex :=
  let blank := CharSet.ofKind .blank
  .look (some 1) false (.one ((CharSet.ofList ['\'', '"']).or (blank.or (.single '/')))) ++
    .one (blank.or (.ofList ['/', '>'])).not ++ .many (blank.or (.ofList ['/', '=', '>'])).not

/-- A value without quotes. -/
def bareValue : Regex :=
  .look none true (.one (.ofList ['\'', '"'])) ++
    .many ((CharSet.ofKind .blank).or (.single '>')).not

/-- The value of an attribute. -/
def attributeValue : Regex :=
  .oneOf [char '\'' ++ .allBut '\'' ++ char '\'', char '"' ++ .allBut '"' ++ char '"', bareValue]

/-- The sign before a value. -/
def attributeSign : Regex := .blanks ++ .many1 (.single '=') ++ .blanks

/-- An attribute: group 1 is its name, group 2 its sign and value, group 3 its value. -/
def namedValue : Regex :=
  .group 1 attributeName ++ .opt (.group 2 (attributeSign ++ .group 3 attributeValue)) ++ tagGap

/-- A start tag up to what ends it. -/
def startTagExtent : Regex :=
  char '<' ++ .one letterSet ++ .many tagNameSet ++
    .opt (.many ((CharSet.ofKind .blank).or (.single '/')) ++
      .loop (attributeName ++ .opt (attributeSign ++ attributeValue ++ .blanks) ++ tagGap)
        0 none .greedy) ++ .blanks

/-- An end tag; its name is group 1. -/
def endTag : Regex :=
  .text "</" ++ .blanks ++
    .group 1 (.one letterSet ++
      .many ((letterSet.or (.between '0' '9')).or (.ofList ['-', '.', ':', '_']))) ++
    .blanks ++ char '>'

/-- The end of raw text inside an element. -/
def rawEnd (name : String) : Regex :=
  .textAnyCase "</" ++ .blanks ++ .textAnyCase name ++ .blanks ++ char '>'

/-- The end of a comment. -/
def commentEnd : Regex := .text "--" ++ .blanks ++ char '>'

/-- The keyword of a marked section; group 1 is the keyword without the blanks after it. -/
def sectionKeyword : Regex :=
  .group 1 (.one letterSet ++
    .many ((letterSet.or (.between '0' '9')).or (.ofList ['-', '_', '.']))) ++ .blanks

/-- The end of a marked section. -/
def sectionEnd : Regex := char ']' ++ .blanks ++ char ']' ++ .blanks ++ char '>'

/-- The end of a conditional section. -/
def conditionalEnd : Regex := char ']' ++ .blanks ++ char '>'

end Pattern

namespace Token

/-- How a step of cutting ends: tokens and where to go on, or a construct that is not complete. -/
abbrev Step := Option (List Token × Cursor)

/-- The cursor behind the first occurrence of a character, if there is one. -/
def past? (c : Char) (s : Cursor) : Option Cursor :=
  (s.after.findIdx? (· == c)).map fun n => s.advance (n + 1)

/-- The first match of a pattern at or after a cursor. -/
def search? (r : Regex) (s : Cursor) : Option Regex.Match :=
  r.findFrom false s.before s.after s.pos

/-- Where the extent of a start tag ends: behind its end mark, or before a character that cannot go
on; none if the tag is not complete. -/
def tagEnd? (s : Cursor) : Option Cursor :=
  match Regex.matchAt Pattern.startTagExtent s with
  | none => none
  | some m =>
    match m.stop.after with
    | [] => none
    | '>' :: _ => some (m.stop.advance 1)
    | '/' :: '>' :: _ => some (m.stop.advance 2)
    | c :: _ => if c.isAlpha || c == '=' || c == '/' then none else some m.stop

/-- The value of an attribute as written, without its quotes. -/
def unquote (s : List Char) : List Char :=
  match s with
  | q :: rest =>
    if (q == '\'' || q == '"') && s.getLast? == some q then rest.dropLast else s
  | [] => []

/-- Reads attributes up to a position; returns them and where they end. -/
def readAttributes (stop : Nat) : Nat → Attributes → Cursor → Attributes × Cursor
  | 0, found, s => (found, s)
  | fuel + 1, found, s =>
    if s.pos < stop then
      match Regex.matchAt Pattern.namedValue s with
      | none => (found, s)
      | some m =>
        let name := Text.lower (String.ofList (m.group 1))
        let value := String.ofList (resolveValue (unquote (m.group 3)))
        readAttributes stop fuel (setAttribute name value found) m.stop
    else (found, s)

/-- Reads a start tag at a `<` that a letter follows. -/
def readStartTag (s : Cursor) : Step := do
  let stop ← tagEnd? s
  let m ← Regex.matchAt Pattern.tagName (s.advance 1)
  let name := Text.lower (String.ofList (m.group 1))
  let (attributes, rest) := readAttributes stop.pos (s.after.length + 1) [] m.stop
  let closing := Text.trim (rest.textTo stop)
  if closing = ['>'] then return ([.startTag name attributes], stop)
  else if closing = ['/', '>'] then return ([.emptyTag name attributes], stop)
  else return ([.text (s.textTo stop)], stop)

/-- Reads an end tag at `</`. Without a name it is a comment, or nothing if it is empty. -/
def readEndTag (s : Cursor) : Step := do
  let stop ← past? '>' (s.advance 1)
  match Regex.matchAt Pattern.endTag s with
  | some m => return ([.endTag (Text.lower (String.ofList (m.group 1)))], m.stop)
  | none =>
    match Regex.matchAt Pattern.tagName (s.advance 2) with
    | some m =>
      let stop ← past? '>' m.stop
      return ([.endTag (Text.lower (String.ofList (m.group 1)))], stop)
    | none =>
      let inside := (s.advance 2).textTo stop
      if inside = ['>'] then return ([], stop)
      else return ([.comment inside.dropLast], stop)

/-- Reads something that goes on to the next `>`, after `skip` characters. -/
def readToAngle (skip : Nat) (make : List Char → Token) (s : Cursor) : Step := do
  let stop ← past? '>' (s.advance skip)
  return ([make ((s.advance skip).textTo stop).dropLast], stop)

/-- Reads a comment at its opening mark. -/
def readComment (s : Cursor) : Step := do
  let m ← search? Pattern.commentEnd (s.advance 4)
  return ([.comment ((s.advance 4).textTo m.start)], m.stop)

/-- The keywords of marked sections. -/
def sectionKeywords : List String := ["temp", "cdata", "ignore", "include", "rcdata"]

/-- The keywords of conditional sections. -/
def conditionalKeywords : List String := ["if", "else", "endif"]

/-- Reads a marked section at its opening mark. -/
def readSection (s : Cursor) : Except MarkupError Step :=
  let body := s.advance 3
  if body.after.isEmpty then .ok none
  else
    match Regex.matchAt Pattern.sectionKeyword body with
    | none => .error (.missingName (s.after.take 20))
    | some m =>
      if m.stop.after.isEmpty then .ok none
      else
        let keyword := Text.lower (String.ofList (m.group 1))
        let upTo (r : Regex) : Step :=
          (search? r body).map fun e => ([.section (body.textTo e.start)], e.stop)
        if sectionKeywords.contains keyword then .ok (upTo Pattern.sectionEnd)
        else if conditionalKeywords.contains keyword then .ok (upTo Pattern.conditionalEnd)
        else .error (.unknownSection m.text)

/-- Reads a declaration at `<!`. -/
def readDeclaration (s : Cursor) : Except MarkupError Step :=
  if "<![".toList.isPrefixOf s.after then readSection s
  else if (s.after.take 9).map Char.toLower = "<!doctype".toList then
    .ok (do
      let stop ← past? '>' (s.advance 9)
      return ([.doctype ((s.advance 10).textTo stop).dropLast], stop))
  else .ok (readToAngle 2 .comment s)

/-- Reads what a `<` begins. Before anything but a letter or one of the marks it is text. -/
def readTag (s : Cursor) : Except MarkupError Step :=
  match s.after with
  | _ :: '/' :: _ => .ok (readEndTag s)
  | _ :: '!' :: '-' :: '-' :: _ => .ok (readComment s)
  | _ :: '?' :: _ => .ok (readToAngle 2 .instruction s)
  | _ :: '!' :: _ => readDeclaration s
  | _ :: c :: _ => .ok (if c.isAlpha then readStartTag s else some ([.text ['<']], s.advance 1))
  | _ => .ok none

/-- The text for a construct that is never completed: up to the next `>`, or else before the next
`<`, or else one character. -/
def readIncomplete (s : Cursor) : List Token × Cursor :=
  let next := s.advance 1
  let stop :=
    match past? '>' next with
    | some t => t
    | none =>
      match next.after.findIdx? (· == '<') with
      | some n => next.advance n
      | none => next
  ([.text (s.textTo stop)], stop)

/-- Whether a character can be part of a hexadecimal number. -/
def isHexDigit (c : Char) : Bool := (Text.hexDigit? c.toLower).isSome

/-- Drops a semicolon. -/
def skipSemicolon (s : Cursor) : Cursor :=
  if s.after.head? = some ';' then s.advance 1 else s

/-- Reads a numeric reference at `&#`; it needs digits and a character after them that is none. -/
def readNumericReference (s : Cursor) : Step :=
  let body := s.advance 2
  let (mark, digits) :=
    match body.after with
    | 'x' :: rest => (1, rest.takeWhile isHexDigit)
    | 'X' :: rest => (1, rest.takeWhile isHexDigit)
    | rest => (0, rest.takeWhile Char.isDigit)
  let stop := body.advance (mark + digits.length)
  match stop.after with
  | [] => none
  | c :: _ =>
    if digits.isEmpty || isHexDigit c then none
    else some ([.text [codeText (codeOf (if mark = 1 then 16 else 10) digits)]], skipSemicolon stop)

/-- Whether a character can be part of the name of a reference. -/
def isReferenceChar (c : Char) : Bool := c.isAlphanum || c == '-' || c == '.'

/-- Reads a reference by name at `&` and a letter; a character that is neither letter nor digit has
to follow the name. -/
def readNamedReference (s : Cursor) : Step :=
  let body := s.advance 1
  let run := body.after.takeWhile isReferenceChar
  let name :=
    if run.length < body.after.length then run
    else (run.reverse.dropWhile Char.isAlphanum).drop 1 |>.reverse
  if name.isEmpty then none
  else some ([.text (namedText name)], skipSemicolon (body.advance name.length))

/-- Reads what a `&` begins: a step, and whether a failure leaves the marks as text. -/
def readReference (s : Cursor) : Step :=
  match s.after with
  | _ :: '#' :: _ => readNumericReference s
  | _ :: c :: _ => if c.isAlpha then readNamedReference s else some ([.text ['&']], s.advance 1)
  | _ => none

/-- Reads a text up to the next mark. -/
def readText (s : Cursor) : List Token × Cursor :=
  let t := s.after.takeWhile fun c => c != '<' && c != '&'
  ([.text t], s.advance t.length)

/-- The text of what is left when cutting ends at a mark. Of a reference of one letter that ends
the markup, the mark is lost. -/
def leftover (s : Cursor) : List Token :=
  match s.after with
  | [] => []
  | ['&', c] => if c.isAlpha then [.text [c]] else [.text ['&', c]]
  | t => [.text t]

/-- The elements whose content is raw text. -/
def rawNames : List String := ["script", "style"]

/-- The element whose raw content follows these tokens. -/
def rawAfter : List Token → Option String
  | [.startTag name _] => if rawNames.contains name then some name else none
  | _ => none

/-- Reads raw text up to a tag like the end tag of its element; none if there is no such tag. -/
def readRaw (name : String) (s : Cursor) : Option (List Token × Cursor × Option String) := do
  let m ← search? (Pattern.rawEnd name) s
  let before := s.textTo m.start
  let lead : List Token := if before.isEmpty then [] else [.text before]
  match Regex.matchAt Pattern.endTag m.start with
  | some e =>
    if Text.lower (String.ofList (e.group 1)) = name then
      return (lead ++ [.endTag name], e.stop, none)
    else return (lead ++ [.text e.text], e.stop, some name)
  | none => return (lead ++ [.text m.text], m.stop, some name)

/-- Cuts markup from a cursor on; `out` holds the tokens so far, last one first, and `raw` the
element whose raw content is being read. The first construct that cannot be completed begins the
last stretch (`final`), in which such constructs are text. -/
def scanFrom : Nat → Bool → Option String → List Token → Cursor →
    Except MarkupError (List Token)
  | 0, _, _, out, _ => .ok out.reverse
  | fuel + 1, final, some name, out, s =>
    match readRaw name s with
    | none => .ok out.reverse
    | some (ts, rest, raw) => scanFrom fuel final raw (ts.reverse ++ out) rest
  | fuel + 1, final, none, out, s =>
    match s.after with
    | [] => .ok out.reverse
    | '<' :: more =>
      match readTag s with
      | .error e => .error e
      | .ok (some (ts, rest)) => scanFrom fuel final (rawAfter ts) (ts.reverse ++ out) rest
      | .ok none =>
        if !final then scanFrom fuel true none out s
        else if more.isEmpty then .ok ((leftover s).reverse ++ out).reverse
        else
          let (ts, rest) := readIncomplete s
          scanFrom fuel final none (ts.reverse ++ out) rest
    | '&' :: more =>
      match readReference s with
      | some (ts, rest) => scanFrom fuel final none (ts.reverse ++ out) rest
      | none =>
        let (ts, rest) :=
          if more.head? = some '#' ∧ s.after.contains ';' then
            ([Token.text ['&', '#']], s.advance 2)
          else ([], s)
        let out := ts.reverse ++ out
        if final then .ok ((leftover rest).reverse ++ out).reverse
        else scanFrom fuel true none out rest
    | _ =>
      let (ts, rest) := readText s
      scanFrom fuel final none (ts.reverse ++ out) rest

/-- The tokens of a markup text. -/
def read (s : List Char) : Except MarkupError (List Token) :=
  scanFrom (2 * s.length + 4) false none [] (.start s)

end Token

end BlockMarkup.Markup
