import BlockMarkup.Stylesheet.Options

/-! # Writing stylesheets

The text of the stylesheet of a Block: one rule, in which its Elements stand nested, its child
Blocks are linked, and two marked sections come last.
-/

namespace BlockMarkup

/-- What the text of stylesheets depends on. -/
structure StylesheetWriter where
  options : StylesheetOptions
  policy : SelectorPolicy

/-- The state selectors of an Element and the Elements on the way to it. -/
structure ElementStates where
  path : List String
  selectors : List String
deriving DecidableEq, Repr

namespace ElementStates

/-- The selector that leads to the Element. -/
def pathSelector (e : ElementStates) : String :=
  " ".intercalate (e.path.map fun name => "> ." ++ name)

end ElementStates

namespace StylesheetWriter

/-- The line that begins the section for shared styles. -/
def sharedMarker : String := "// --shared ----------------------------------------"

/-- The line that begins the section for states. -/
def interactionMarker : String := "// --interaction -----------------------------------"

/-- The blanks before a line. -/
def indent (level : Nat) : String := String.ofList (List.replicate (2 * level) ' ')

/-- A line at a level. -/
def line (level : Nat) (s : String) : String := indent level ++ s

/-- The line that opens a rule. -/
def opening (level : Nat) (s : String) : String := line level (s ++ " \x7b")

/-- The line that closes a rule. -/
def closing (level : Nat) : String := line level "\x7d"

/-! ## Selectors -/

/-- The modifiers that act as variants, and those that act as states. Where both could be meant,
they are variants. -/
def splitModifiers (w : StylesheetWriter) (modifiers : List String) :
    List String × List String :=
  let tokens := w.options.naming.modifiersOf w.options.external modifiers
  match w.policy.variant.mode, w.policy.state.mode with
  | .byData, .byData => ([], [])
  | .byData, .byClass => ([], tokens)
  | .byClass, _ => (tokens, [])

/-- The selector of a modifier. -/
def modifierSelector (m : String) : String := "&." ++ m

/-- The selector of an attribute. -/
def attributeSelector (a : AttributeSelector) : String := "&" ++ a.selector

/-- The selectors of the variants of a node. -/
def variantSelectors (w : StylesheetWriter) (c : Component) : List String :=
  let attributes :=
    match w.policy.variant.mode with
    | .byData => c.variants.map attributeSelector
    | .byClass => []
  unique ((w.splitModifiers c.modifiers).1.map modifierSelector ++ attributes)

/-- The selectors of the states of a node. -/
def stateSelectors (w : StylesheetWriter) (c : Component) : List String :=
  let attributes :=
    match w.policy.state.mode with
    | .byData => c.states.map attributeSelector
    | .byClass => []
  unique (attributes ++ (w.splitModifiers c.modifiers).2.map modifierSelector)

mutual

/-- The state selectors of an Element and of those inside it; none for a Block. -/
def statesOfElement (w : StylesheetWriter) (path : List String) : Component → List ElementStates
  | .mk b i m v s n is o t r d =>
    if i then []
    else
      let selectors := w.stateSelectors (.mk b i m v s n is o t r d)
      (if selectors.isEmpty then [] else [⟨path ++ [b], selectors⟩]) ++
        statesOfElements w (path ++ [b]) o

/-- The state selectors of the Elements among some nodes. -/
def statesOfElements (w : StylesheetWriter) (path : List String) :
    List Component → List ElementStates
  | [] => []
  | c :: rest => statesOfElement w path c ++ statesOfElements w path rest

end

/-- The state selectors of the Elements below a node, as far as no Block stands between. -/
def elementStates (w : StylesheetWriter) (c : Component) : List ElementStates :=
  statesOfElements w [] c.ordered

/-! ## Lines -/

/-- The lines for the layout of a node. -/
def layoutLines (w : StylesheetWriter) (level : Nat) (independent : Bool) : List String :=
  match w.options.layoutMixins with
  | [] =>
    [line level ("// " ++ (if independent then "block" else "element") ++ " base styles"), ""]
  | mixins => mixins.flatMap fun mixin =>
    [opening level mixin, line (level + 1) "// layout mixin", closing level, ""]

/-- The lines for a variant. -/
def variantLines (w : StylesheetWriter) (level : Nat) (selector : String) : List String :=
  match w.options.layoutMixins with
  | [] => [opening level selector, line (level + 1) "// variant styles", closing level, ""]
  | mixins => mixins.flatMap fun mixin =>
    [opening level selector, opening (level + 1) mixin, line (level + 2) "// variant styles",
      closing (level + 1), closing level, ""]

/-- The file of a child Block, as seen from the file of the node above it. -/
def childLink (w : StylesheetWriter) (fromRoot : Bool) (base : String) : String :=
  let file := FileName.format base w.options.childFileCase
  "// @rel/" ++ (if fromRoot then w.options.childDir ++ "/" ++ file else file) ++ ".scss"

/-- The lines for a child Block. -/
def childLines (w : StylesheetWriter) (level : Nat) (fromRoot : Bool) (base : String) :
    List String :=
  let link := line (level + 1) (w.childLink fromRoot base)
  match w.options.layoutMixins with
  | [] =>
    [opening level ("> ." ++ base), link, line (level + 1) "// child component layout",
      closing level, ""]
  | mixins => mixins.flatMap fun mixin =>
    [opening level ("> ." ++ base), link, opening (level + 1) mixin,
      line (level + 2) "// child component layout", closing (level + 1), closing level, ""]

/-- The lines for the states of a node. -/
def stateLines (level : Nat) (selector : String) : List String :=
  [opening level selector, line (level + 1) "// state styles", closing level, ""]

/-- The lines for the states of an Element. -/
def elementStateLines (level : Nat) (e : ElementStates) : List String :=
  opening level e.pathSelector :: e.selectors.flatMap (stateLines (level + 1)) ++
    [closing level, ""]

/-- The lines of the two sections that end a Block. -/
def sectionLines (w : StylesheetWriter) (level : Nat) (c : Component) : List String :=
  ["", line level sharedMarker, "", line level interactionMarker] ++
    match w.stateSelectors c, w.elementStates c with
    | [], [] => [line level "// @at-root & \x7b", line level "// \x7d", ""]
    | states, elements =>
      opening level "@at-root &" ::
        (states.flatMap (stateLines (level + 1)) ++
          elements.flatMap (elementStateLines (level + 1))) ++ [closing level, ""]

/-- Lines as one text, without blanks at its end. -/
def joinLines (lines : List String) : String :=
  String.ofList (Text.trimLeft ("\n".intercalate lines).toList.reverse).reverse

mutual

/-- The inside of the rule of a node. `asRoot` says that it loads the styles of its children. -/
def blockBody (w : StylesheetWriter) (level : Nat) (asRoot : Bool) : Component → String
  | .mk b i m v s n is o t r d =>
    let c : Component := .mk b i m v s n is o t r d
    let load :=
      if asRoot && o.any (·.independent) then
        [line level ("@include meta.load-css(\"" ++ w.options.childDir ++ "\");"), ""]
      else []
    joinLines (load ++ w.layoutLines level i ++
      (w.variantSelectors c).flatMap (w.variantLines level) ++
      childrenLines w level r o ++
      if i then w.sectionLines level c else [])

/-- The lines for the children of a node. -/
def childrenLines (w : StylesheetWriter) (level : Nat) (fromRoot : Bool) :
    List Component → List String
  | [] => []
  | c :: rest =>
    (if c.independent then w.childLines level fromRoot c.base
      else
        [opening level ("> ." ++ c.base), blockBody w (level + 1) false c, closing level, ""]) ++
      childrenLines w level fromRoot rest

end

/-! ## Files -/

/-- The file of a parent Block, as seen from the file of a child; `rootFile` is the base of the
root file where that is the parent. -/
def parentLink (w : StylesheetWriter) (parent : Option Component) (rootFile : Option String) :
    String :=
  match parent, rootFile with
  | none, _ => "(parent-block)"
  | some _, some file => "../" ++ file
  | some p, none =>
    if p.isRoot then "../" ++ FileName.format p.base w.options.rootFileCase
    else FileName.format p.base w.options.childFileCase

/-- The lines before the rule of a file; `hint` is the entry file of the page. -/
def header (w : StylesheetWriter) (c : Component) (parent : Option Component) (hint : String)
    (rootFile : Option String) : String :=
  let use := "@use \"" ++ w.options.globalModule ++ "\" as *;\n"
  if c.isRoot then
    use ++ "@use \"sass:meta\";\n\n// " ++ w.options.pageEntryPrefix ++ "/" ++ hint ++ "\n\n"
  else use ++ "\n// @rel/" ++ w.parentLink parent rootFile ++ ".scss\n\n"

/-- The stylesheet of a Block. -/
def fileContent (w : StylesheetWriter) (c : Component) (parent : Option Component)
    (hint : String) (rootFile : Option String) : String :=
  w.header c parent hint (rootFile.filter (· != "")) ++ "." ++ c.base ++ " \x7b\n" ++
    w.blockBody 1 c.isRoot c ++ "\n\x7d\n"

end StylesheetWriter

end BlockMarkup
