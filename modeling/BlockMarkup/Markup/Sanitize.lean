import BlockMarkup.Regex.Match

/-! # Plain markup

Reduces templated markup to plain HTML with one class attribute per element: class attributes of
all spellings become `class="..."`, template syntax disappears, and component tags that close
themselves get an end tag.
-/

namespace BlockMarkup.Markup

open BlockMarkup.Regex (CharSet)

namespace Pattern

/-- One given character. -/
def char (c : Char) : Regex := .one (.single c)

/-- A quoted value; its content is group 1. -/
def quoted (q : Char) : Regex := char q ++ .group 1 (.allBut q) ++ char q

/-- Something in braces, with blanks around it. -/
def braced (r : Regex) : Regex := char '\x7b' ++ .blanks ++ r ++ .blanks ++ char '\x7d'

/-- The name of an attribute and the sign after it. -/
def assigned (name : String) : Regex := .text name ++ .blanks ++ char '=' ++ .blanks

/-- The shortest text from one mark to another. -/
def enclosed (opening closing : String) : Regex := .text opening ++ .anyText ++ .text closing

/-- A value in double or single quotes. -/
def plainQuoted : Regex :=
  (char '"' ++ .allBut '"' ++ char '"').alt (char '\'' ++ .allBut '\'' ++ char '\'')

/-- One or more word characters or hyphens. -/
def nameChars : Regex := .many1 ((CharSet.ofKind .word).or (.single '-'))

/-- One or more blanks. -/
def someBlanks : Regex := .many1 (.ofKind .blank)

/-- The sign and a quoted value of an attribute, if they are there. -/
def optionalValue : Regex := .opt (char '=' ++ plainQuoted)

/-- A character data section. -/
def characterData : Regex := enclosed "<![CDATA[" "]]>"

/-- An element with raw content; the shortest text up to an end tag of the same name. -/
def rawElement (names : List String) : Regex :=
  char '<' ++ .blanks ++ .group 1 (.oneOf (names.map .textAnyCase)) ++
    .anchor (.wordBoundary false false) ++ .allBut '>' ++ char '>' ++ .anyText ++
    .text "</" ++ .blanks ++ .backref 1 .fullFold ++ .blanks ++ char '>'

/-- Scripts and style sheets. -/
def scriptOrStyle : Regex := rawElement ["script", "style"]

/-- Metadata between lines of hyphens at the very start. -/
def frontmatter : Regex :=
  .anchor .textStart ++ .text "---" ++ .anyText ++ .text "---" ++ .blanks

/-- A template literal as the value of an attribute. -/
def templateLiteral (name : String) : Regex := assigned name ++ braced (quoted '\x60')

/-- Directives of component templates: a known word or mark, a colon, and a name. -/
def directive : Regex :=
  someBlanks ++
    .oneOf [
      .oneOf (["on", "bind", "class", "use", "transition", "in", "out", "animate", "let", "client",
        "set"].map .text) ++ char ':' ++ nameChars,
      .text "v-" ++ nameChars,
      .one (.ofList [':', '@', '#']) ++ nameChars] ++ optionalValue

/-- Event handlers in camel case. -/
def eventHandler : Regex :=
  someBlanks ++ .text "on" ++ .one (.between 'A' 'Z') ++
    .many ((CharSet.ofKind .word).or (.single '-')) ++ optionalValue

/-- Raw content given as an attribute. -/
def rawContent : Regex :=
  someBlanks ++ .text "dangerouslySetInnerHTML=" ++
    (char '"' ++ .allBut '"' ++ char '"').alt (enclosed "\x7b" "\x7d")

/-- Template syntax that is removed outright, in this order. -/
def templateSyntax : List Regex := [
  .text "\x7b..." ++ .many1 (CharSet.single '\x7d').not ++ char '\x7d',
  enclosed "<%" "%>",
  enclosed "\x7b\x7b" "\x7d\x7d",
  enclosed "\x7b%" "%\x7d",
  enclosed "\x7b#" "#\x7d",
  enclosed "\x7b/*" "*/\x7d",
  .alt (.text "<>" ++ .blanks) (.text "</>"),
  directive,
  eventHandler,
  rawContent,
  enclosed "$\x7b" "\x7d"]

/-- Two or more blanks. -/
def wideBlank : Regex := .span (.ofKind .blank) 2 none .greedy

/-- A value in backticks. -/
def backtickValue : Regex := char '=' ++ quoted '\x60'

/-- The spellings of a class attribute that stand for its content, in this order. -/
def classSpellings : List Regex := [
  assigned "className" ++ braced (quoted '"'),
  assigned "className" ++ braced (quoted '\''),
  assigned "className" ++ quoted '"',
  assigned "className" ++ quoted '\'',
  assigned "class" ++ braced (quoted '"'),
  assigned "class" ++ braced (quoted '\'')]

/-- A class attribute whose content cannot be known. -/
def opaqueClass : Regex :=
  assigned "className" ++
    .oneOf [char '"' ++ .allBut '"' ++ char '"', char '\'' ++ .allBut '\'' ++ char '\'',
      char '\x7b' ++ .allBut '\x7d' ++ char '\x7d']

/-- A component tag that closes itself: its name and its attributes. -/
def closedComponent : Regex :=
  char '<' ++
    .group 1 (.one (.between 'A' 'Z') ++
      .many ((CharSet.ofKind .word).or (.ofList ['.', '-']))) ++
    .group 2 (.allBut '>') ++ .text "/>"

/-- A class attribute. -/
def classAttribute : Regex := .text "class=" ++ quoted '"'

/-- A value in double quotes; group 1 is the value without blanks around it. -/
def paddedValue : Regex :=
  char '=' ++ .blanks ++ char '"' ++ .blanks ++ .group 1 (.few (CharSet.single '"').not) ++
    .blanks ++ char '"'

end Pattern

/-- A text in double quotes. -/
def inQuotes (s : List Char) : List Char := '"' :: s ++ ['"']

/-- The class attribute with the content of a match. -/
def toClassAttribute (m : Regex.Match) : List Char :=
  "class=".toList ++ inQuotes (m.group 1)

/-- The class attribute with its tokens one blank apart, bare hyphens and underscores dropped;
nothing if no token is left. -/
def cleanClass (m : Regex.Match) : List Char :=
  let tokens := (Text.wordsOf (m.group 1)).filter fun t => t != ['-'] && t != ['_']
  let cleaned := [' '].intercalate tokens
  if cleaned.isEmpty then [] else "class=".toList ++ inQuotes cleaned

/-- Removes the matches of several patterns, one pattern after the other. -/
def removeEach (patterns : List Regex) (s : List Char) : List Char :=
  patterns.foldl (fun s r => Regex.removeAll r s) s

open Pattern

/-- Turns template literals into class attributes and drops what carries no classes. -/
def dropOpaque (s : List Char) : List Char :=
  let s := (templateLiteral "className").replaceAll toClassAttribute s
  let s := (templateLiteral "class").replaceAll toClassAttribute s
  let s := frontmatter.replaceFirst (fun _ => []) s
  removeEach [characterData, scriptOrStyle] s

/-- Drops template syntax; blanks that are left in rows become one. -/
def dropTemplates (s : List Char) : List Char :=
  wideBlank.replaceAll (fun _ => [' ']) (removeEach templateSyntax s)

/-- Gives every class attribute one spelling. -/
def unifyClasses (s : List Char) : List Char :=
  let s := backtickValue.replaceAll (fun m => '=' :: inQuotes (m.group 1)) s
  let s := classSpellings.foldl (fun s r => r.replaceAll toClassAttribute s) s
  opaqueClass.removeAll s

/-- Gives component tags that close themselves an end tag. -/
def openComponents (s : List Char) : List Char :=
  closedComponent.replaceAll
    (fun m => '<' :: m.group 1 ++ m.group 2 ++ "></".toList ++ m.group 1 ++ ['>']) s

/-- Cleans class attributes and trims quoted values. -/
def tidyValues (s : List Char) : List Char :=
  paddedValue.replaceAll (fun m => '=' :: inQuotes (m.group 1))
    (classAttribute.replaceAll cleanClass s)

/-- Plain HTML for templated markup. Unknown syntax stays as it is. -/
def sanitize (s : List Char) : List Char :=
  tidyValues (openComponents (unifyClasses (dropTemplates (dropOpaque s))))

end BlockMarkup.Markup
