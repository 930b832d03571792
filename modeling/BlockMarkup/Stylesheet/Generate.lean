import BlockMarkup.Stylesheet.Writer
import BlockMarkup.Markup.Document

/-! # Generating stylesheets

One file for every Block of a document, and an index of the files of child Blocks.
-/

namespace BlockMarkup

open Markup (RootMode Document Node)

/-- A file, its path taken from the directory of the document. -/
structure GeneratedFile where
  path : String
  content : String
deriving DecidableEq, Repr

/-- Why no stylesheets can be generated. -/
inductive GenerationError where
  | emptySelection
  | ambiguousRoot
  | noRoot
  | rootWithoutClass
deriving DecidableEq, Repr

namespace GenerationError

/-- What is told about the error. -/
def message : GenerationError → String
  | .emptySelection => "No elements with a class attribute found."
  | .ambiguousRoot => "Multiple root elements found. Root mode expects a single root element."
  | .noRoot => "No root element found."
  | .rootWithoutClass => "Root element does not have a class attribute."

end GenerationError

namespace StylesheetWriter

/-- The conventions by which markup is read. -/
def conventions (w : StylesheetWriter) : Conventions :=
  ⟨w.options.naming, w.policy, w.options.external⟩

/-- A writer for given options. -/
def ofOptions (o : StylesheetOptions) : Except PolicyError StylesheetWriter :=
  o.conventions.map fun c => ⟨o, c.policy⟩

/-- The elements that stylesheets are generated for. -/
def selectRoots (d : Document) : Except GenerationError (List Node) :=
  match d.mode with
  | .selection =>
    if d.selectionRoots.isEmpty then .error .emptySelection else .ok d.selectionRoots
  | .root =>
    if d.hasAmbiguousRoot then .error .ambiguousRoot
    else
      match d.rootNode? with
      | none => .error .noRoot
      | some n => if n.hasClass then .ok [n] else .error .rootWithoutClass

/-- The Blocks among the trees of some elements. -/
def blockTrees (w : StylesheetWriter) (roots : List Node) : List Component :=
  (roots.filterMap (w.conventions.build 0)).filter (·.independent)

/-- The trees that files are generated for. -/
def rootTrees (w : StylesheetWriter) (mode : RootMode) (roots : List Node) : List Component :=
  match mode with
  | .root => (w.blockTrees roots).map (·.withRoot true)
  | .selection => Component.dedup ((w.blockTrees roots).map (·.withRoot false))

/-- The base of the file of a child Block. -/
def childFile (w : StylesheetWriter) (base : String) : String :=
  FileName.format base w.options.childFileCase

/-- The base of the file of a root. -/
def rootFile (w : StylesheetWriter) (base : String) : String :=
  FileName.format base w.options.rootFileCase

/-- The path of a file in the directory of child Blocks. -/
def childPath (w : StylesheetWriter) (file : String) : String :=
  w.options.childDir ++ "/" ++ file ++ ".scss"

mutual

/-- The file bases of a Block and of the Blocks below it, later Blocks first. -/
def indexEntriesOf (w : StylesheetWriter) : Component → List String
  | .mk b _ _ _ _ _ independents _ _ _ _ => w.childFile b :: indexEntries w independents

/-- The file bases of some Blocks and of the Blocks below them, later Blocks first. -/
def indexEntries (w : StylesheetWriter) : List Component → List String
  | [] => []
  | c :: rest => indexEntries w rest ++ indexEntriesOf w c

end

mutual

/-- The files of a Block and of the Blocks below it. -/
def childFilesOf (w : StylesheetWriter) (rootFile : String) (parent : Component) :
    Component → List GeneratedFile
  | .mk b i m v s n independents o t r d =>
    let c : Component := .mk b i m v s n independents o t r d
    ⟨w.childPath (w.childFile b),
      w.fileContent c (some parent) "" (if parent.isRoot then some rootFile else none)⟩ ::
      childFiles w rootFile c independents

/-- The files of some child Blocks and of the Blocks below them. -/
def childFiles (w : StylesheetWriter) (rootFile : String) (parent : Component) :
    List Component → List GeneratedFile
  | [] => []
  | c :: rest => childFilesOf w rootFile parent c ++ childFiles w rootFile parent rest

end

/-- The files of a root and of the Blocks below it. -/
def rootFiles (w : StylesheetWriter) (mode : RootMode) (tree : Component) : List GeneratedFile :=
  let file := w.rootFile tree.base
  let (path, hint) :=
    match mode with
    | .root => (file ++ ".scss", "index.scss")
    | .selection => (w.childPath file, "page-entry.scss")
  ⟨path, w.fileContent tree none hint none⟩ :: w.childFiles file tree tree.independents

/-- The line of the index that uses a file. -/
def useLine (file : String) : String := "@use \"" ++ file ++ "\";"

/-- The lines of the index that a root gives rise to. -/
def useLines (w : StylesheetWriter) (mode : RootMode) (tree : Component) : List String :=
  let children := (w.indexEntries tree.independents).map useLine
  match mode with
  | .root => children
  | .selection => useLine (w.rootFile tree.base) :: children

/-- The index of the directory of child Blocks, if it has any lines. -/
def indexFile (w : StylesheetWriter) (uses : List String) : List GeneratedFile :=
  if uses.isEmpty then []
  else [⟨w.options.childDir ++ "/index.scss", "\n".intercalate uses ++ "\n"⟩]

/-- The files for some trees. -/
def filesFor (w : StylesheetWriter) (mode : RootMode) (trees : List Component) :
    List GeneratedFile :=
  trees.flatMap (w.rootFiles mode) ++ w.indexFile (unique (trees.flatMap (w.useLines mode)))

/-- The files for a document. -/
def generateFor (w : StylesheetWriter) (d : Document) :
    Except GenerationError (List GeneratedFile) :=
  (selectRoots d).map fun roots => w.filesFor d.mode (w.rootTrees d.mode roots)

/-- Generates the stylesheets for markup. -/
def generate (w : StylesheetWriter) (mode : RootMode) (html : List Char) :
    Except GenerationError (List GeneratedFile) :=
  w.generateFor (Document.read mode html)

/-- The elements that a summary looks at. -/
def summaryRoots (d : Document) : List Node :=
  match d.mode with
  | .root => (d.rootNode?.filter (·.hasClass)).toList
  | .selection => d.selectionRoots

/-- How often every Block is the root of an element of a document. -/
def summarizeFor (w : StylesheetWriter) (d : Document) : List (String × Nat) :=
  let bases := (w.blockTrees (summaryRoots d)).map Component.base
  (unique bases).map fun b => (b, bases.count b)

/-- How often every Block is the root of an element. -/
def summarize (w : StylesheetWriter) (mode : RootMode) (html : List Char) :
    List (String × Nat) :=
  w.summarizeFor (Document.read mode html)

end StylesheetWriter

end BlockMarkup
