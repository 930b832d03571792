import BlockMarkup.Naming.NamePattern
import BlockMarkup.Naming.Options

/-! # Kinds of class names

Tells Blocks, Elements and modifiers apart by the naming rules of a project.
-/

namespace BlockMarkup

/-- What a class can be as the first class of a node. -/
inductive BaseKind where
  | block
  | element
  | invalid
deriving DecidableEq, Repr

/-- What a class can be when third-party classes are taken into account. -/
inductive ClassKind where
  | external
  | own (kind : BaseKind)
deriving DecidableEq, Repr

namespace NamingOptions

/-- Whether a custom pattern, or else the pattern of the word case, matches a name. -/
def patternMatches (custom : Option CustomPattern) (pattern : NamePattern) (name : String) :
    Bool :=
  match custom with
  | some p => p.matchesName name
  | none => pattern.matchesName name

/-- Whether a name has the form of a modifier; an empty name may have it too. -/
def modifierMatches (n : NamingOptions) (name : String) : Bool :=
  patternMatches n.custom.modifier (.modifier n.modifierCase n.modifierPrefix) name

/-- Whether a name is a modifier. -/
def isModifier (n : NamingOptions) (name : String) : Bool :=
  name != "" && n.modifierMatches name

/-- Names that begin like this are neither Blocks nor Elements. -/
def reserved (name : String) : Bool :=
  match name.toList with
  | 'u' :: '-' :: _ => true
  | '-' :: _ => true
  | '_' :: _ => true
  | _ => false

/-- Whether a name is a Block. -/
def isBlock (n : NamingOptions) (name : String) : Bool :=
  name != "" && !n.isModifier name && !reserved name &&
    patternMatches n.custom.block (.block n.blockCase n.blockMaxWords) name

/-- Whether a name is an Element. -/
def isElement (n : NamingOptions) (name : String) : Bool :=
  name != "" && !n.isModifier name && !reserved name &&
    patternMatches n.custom.element (.element n.elementCase) name

/-- Names that begin like this are invalid before they can be looked at as Elements. -/
def barred (name : String) : Bool :=
  match name.toList with
  | '-' :: _ => true
  | 'u' :: '-' :: _ => true
  | _ => false

/-- The kind of a base class; a Block is never taken for an Element. -/
def classify (n : NamingOptions) (name : String) : BaseKind :=
  if n.isBlock name then .block
  else if barred name then .invalid
  else if n.isElement name then .element
  else .invalid

theorem reserved_of_barred {name : String} (h : barred name = true) : reserved name = true := by
  unfold barred at h
  unfold reserved
  split at h
  · rename_i hname
    rw [hname]
    rfl
  · rename_i hname
    rw [hname]
    rfl
  · cases h

/-- What is barred is reserved, so the order of the checks makes no difference. -/
theorem classify_eq (n : NamingOptions) (name : String) : n.classify name =
    if n.isBlock name then .block else if n.isElement name then .element else .invalid := by
  rw [classify]
  split
  · rfl
  · cases hbarred : barred name with
    | false => rfl
    | true => simp [isElement, reserved_of_barred hbarred]

/-- The kind of a base class, third-party classes being set apart. -/
def classifyWith (n : NamingOptions) (e : ExternalOptions) (name : String) : ClassKind :=
  if e.covers name then .external else .own (n.classify name)

/-- What a node would be without its third-party classes: a Block if any other class is one, else
an Element if any is one. -/
def inferredKind (n : NamingOptions) (e : ExternalOptions) (tokens : List String) :
    Option BaseKind :=
  let own := tokens.filter fun t => !e.covers t
  if own.any n.isBlock then some .block
  else if own.any n.isElement then some .element
  else none

/-- The modifiers among class names, third-party classes left out. -/
def modifiersOf (n : NamingOptions) (e : ExternalOptions) (tokens : List String) : List String :=
  tokens.filter fun t => n.modifierMatches t && !e.covers t

end NamingOptions

end BlockMarkup
