import BlockMarkup.Text.Case
import BlockMarkup.Naming.Options

/-! # Placeholder names

The class names that stand in for Blocks and Elements without a name of their own. Main statement:
after `putFirst` the placeholder is the first class.
-/

namespace BlockMarkup.Placeholder

/-- The name for a Block. -/
def block (n : NamingOptions) : String :=
  match n.blockCase with
  | .kebab => "block-box"
  | .snake => "block_box"
  | .camel => "blockBox"
  | .pascal => "BlockBox"

/-- The name for an Element. -/
def element (n : NamingOptions) : String :=
  match n.elementCase with
  | .pascal => "Element"
  | _ => "element"

/-- A name with its first character changed. -/
def mapFirst (f : String → String) (name : String) : String :=
  match name.toList with
  | [] => ""
  | c :: rest => f (String.singleton c) ++ String.ofList rest

/-- The name of the Block that an Element becomes. -/
def blockOf (n : NamingOptions) (name : String) : String :=
  match n.blockCase with
  | .kebab => Text.lower name ++ "-box"
  | .snake => Text.lower name ++ "_box"
  | .camel => mapFirst Text.lower name ++ "Box"
  | .pascal => mapFirst Text.upper name ++ "Box"

/-- Puts a placeholder before the other classes; none if it is the first class already. -/
def putFirst? (placeholder : String) (classes : List String) : Option (List String) :=
  if classes.head? = some placeholder then none
  else some (placeholder :: classes.erase placeholder)

/-- The classes with a placeholder before the others. -/
def putFirst (placeholder : String) (classes : List String) : List String :=
  (putFirst? placeholder classes).getD classes

/-- The placeholder is the first class. -/
theorem head?_putFirst (placeholder : String) (classes : List String) :
    (putFirst placeholder classes).head? = some placeholder := by
  unfold putFirst putFirst?
  split <;> simp_all

end BlockMarkup.Placeholder
