import BlockMarkup.Markup.Sanitize

/-! # Class bindings

The spellings in which templates give an element its classes, markup that is no plain HTML
because of them, and their reduction to one attribute that can be read.
-/

namespace BlockMarkup.Markup

open BlockMarkup.Regex (CharSet)

/-- The attribute in which elements carry their classes. -/
inductive ClassAttribute where
  | plain
  | camel
deriving DecidableEq, Repr, Inhabited

namespace ClassAttribute

/-- The name of the attribute. -/
def name : ClassAttribute → String
  | .plain => "class"
  | .camel => "className"

/-- The attribute of a given name; any other name gives the plain one. -/
def ofName (s : String) : ClassAttribute :=
  if s = "className" then .camel else .plain

/-- The attribute that stands for the camel-case one while markup is rewritten. -/
def internalName : String := "data-spiracss-classname"

end ClassAttribute

namespace Pattern

/-- The name of an attribute that no longer name ends in. -/
def bindingName (a : ClassAttribute) : Regex :=
  .look (some 1) true (.one ((CharSet.ofKind .word).or (.single '-'))) ++ .text a.name

/-- The name of an attribute and the sign after it. -/
def bound (a : ClassAttribute) : Regex :=
  bindingName a ++ .blanks ++ char '=' ++ .blanks

/-- A template literal in braces. -/
def literalBinding (a : ClassAttribute) : Regex := bound a ++ braced (quoted '\x60')

/-- The spellings whose value is a plain text: in braces, and bare. -/
def textBindings (a : ClassAttribute) : List Regex := [
  bound a ++ braced (quoted '"'),
  bound a ++ braced (quoted '\''),
  bound a ++ quoted '"',
  bound a ++ quoted '\'']

/-- The spellings in braces whose value is a text or a template literal. -/
def constantBindings (a : ClassAttribute) : List Regex :=
  literalBinding a :: (textBindings a).take 2

/-- An attribute whose value is something in braces. -/
def bracedBinding (a : ClassAttribute) : Regex := bound a ++ char '\x7b'

/-- A place in a template literal where a value is filled in. -/
def filledPlace : Regex := enclosed "$\x7b" "\x7d"

/-- What occurs in templates only. -/
def templateMarks : List Regex := [
  enclosed "<%" "%>",
  enclosed "\x7b\x7b" "\x7d\x7d",
  enclosed "\x7b%" "%\x7d",
  enclosed "\x7b#" "#\x7d",
  .anchor .textStart ++ .blanks ++ enclosed "---" "---"]

end Pattern

open Pattern

/-- Whether an attribute has something in braces that is neither a text nor a template literal. -/
def hasComputedBinding (a : ClassAttribute) (s : List Char) : Bool :=
  (bracedBinding a).matchesIn (removeEach (constantBindings a) s)

/-- Whether a text is a template, which reading it as HTML would destroy. -/
def hasTemplateSyntax (s : List Char) : Bool :=
  templateMarks.any (·.matchesIn s) || hasComputedBinding .camel s || hasComputedBinding .plain s

/-- The constant part of a template literal: places to be filled are left out, and blanks in rows
become one. -/
def literalText (s : List Char) : List Char :=
  Text.trim (wideBlank.replaceAll (fun _ => [' ']) (filledPlace.removeAll s))

/-- Rewrites the bindings of an attribute as another one in double quotes. -/
def rebind (a : ClassAttribute) (target : String) (s : List Char) : List Char :=
  let value (content : List Char) := target.toList ++ '=' :: inQuotes content
  (textBindings a).foldl (fun s r => r.replaceAll (fun m => value (m.group 1)) s)
    ((literalBinding a).replaceAll (fun m => value (literalText (m.group 1))) s)

/-- Whether an attribute is bound in one of the known spellings. -/
def isBound (a : ClassAttribute) (s : List Char) : Bool :=
  (literalBinding a :: textBindings a).any (·.matchesIn s)

/-- Markup whose class attributes can be read, and whether the attribute that is asked for
replaces the other one anywhere. -/
structure ReadableClasses where
  markup : List Char
  respelled : Bool

/-- Gives every class attribute a name that HTML knows: the camel-case one becomes the internal
one, and the plain one does so too if the camel-case one is asked for. -/
def readableClasses (wanted : ClassAttribute) (s : List Char) : ReadableClasses :=
  let camelless := rebind .camel ClassAttribute.internalName s
  match wanted with
  | .plain => ⟨rebind .plain "class" camelless, isBound .camel s⟩
  | .camel => ⟨rebind .plain ClassAttribute.internalName camelless, isBound .plain camelless⟩

end BlockMarkup.Markup
