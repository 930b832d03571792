import BlockMarkup.Lint.Rule

/-! # Linting markup

Checks a document as a whole, and then every node of the component trees below its roots.
-/

namespace BlockMarkup.Lint

open Markup (RootMode Document Node)

/-- The issues that the rules find at one node. -/
def nodeIssues (x : NodeContext) (path : List String) : Except Regex.ReadError (List Issue) :=
  (Rule.all.mapM fun (r : Rule) => r.check x).map fun found =>
    found.flatten.map fun f => ⟨f.code, f.message, x.base, path⟩

mutual

/-- The issues of a tree. `above` holds the base classes from the root down to the node above. -/
def treeIssues (c : Conventions) (mode : RootMode) (above : List String) (insideBlock : Bool) :
    Component → Except Regex.ReadError (List Issue)
  | .mk b i m v s nested independents o t r d => do
    let path := above ++ [b]
    let x : NodeContext := {
      conventions := c, mode := mode, component := .mk b i m v s nested independents o t r d
      parentBase := above.getLast?, insideBlock := insideBlock, atRoot := above.isEmpty }
    let here ← nodeIssues x path
    let inside := x.actsAsBlock || insideBlock
    let elements ← treesIssues c mode path inside nested
    let blocks ← treesIssues c mode path inside independents
    return here ++ elements ++ blocks

/-- The issues of trees side by side. -/
def treesIssues (c : Conventions) (mode : RootMode) (above : List String) (insideBlock : Bool) :
    List Component → Except Regex.ReadError (List Issue)
  | [] => .ok []
  | x :: rest => do
    let first ← treeIssues c mode above insideBlock x
    let others ← treesIssues c mode above insideBlock rest
    return first ++ others

end

/-- The issue about tags that are not balanced. -/
def balanceIssues (d : Document) : List Issue :=
  (Markup.unbalancedTags d.sanitized).toList.map fun u => { code := .unbalancedHtml, message := u.message }

/-- The issue about more than one root. -/
def ambiguityIssues (d : Document) : List Issue :=
  if d.mode == .root && d.hasAmbiguousRoot then
    [{ code := .multipleRootElements
       message := "Multiple root elements found. Root mode expects a single root element." }]
  else []

/-- The elements whose trees are linted, or what is wrong with the choice of a root. -/
def roots (d : Document) : Except Issue (List Node) :=
  let invalid (message : String) : Except Issue (List Node) :=
    .error { code := .invalidBaseClass, message := message }
  match d.mode with
  | .root =>
    match d.rootNode? with
    | none => invalid "No element found."
    | some n =>
      if n.hasClass then .ok [n] else invalid "Root element does not have a class attribute."
  | .selection =>
    if d.selectionRoots.isEmpty then invalid "No element with class attribute found."
    else .ok d.selectionRoots

/-- The issues of a document. -/
def documentIssues (c : Conventions) (d : Document) : Except Regex.ReadError (List Issue) :=
  let general := balanceIssues d ++ ambiguityIssues d
  match roots d with
  | .error issue => .ok (general ++ [issue])
  | .ok nodes =>
    (treesIssues c d.mode [] false (nodes.filterMap (c.build 0))).map (general ++ ·)

/-- Lints markup. -/
def run (c : Conventions) (mode : RootMode) (html : List Char) :
    Except Regex.ReadError (List Issue) :=
  documentIssues c (Document.read mode html)

/-- The names of all issues that can be reported, sorted. -/
def codeNames : List String :=
  (unique (Rule.codeNames ++
    [IssueCode.invalidBaseClass, .multipleRootElements, .unbalancedHtml].map IssueCode.name)).mergeSort
      (· ≤ ·)

end BlockMarkup.Lint
