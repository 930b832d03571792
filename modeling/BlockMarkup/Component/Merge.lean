import BlockMarkup.Component.Basic

/-! # Merging components

Nodes with the same base class under one parent stand for one component. Merging unites their
modifiers and attributes and merges their children.
-/

namespace BlockMarkup.Component

/-- Adds a node to a list in which every base class occurs once: merged with the node of its class
if there is one, at the end if not. -/
def absorb (merge : Component → Component → Component) (x : Component) :
    List Component → List Component
  | [] => [x]
  | c :: rest => if c.base = x.base then merge c x :: rest else c :: absorb merge x rest

/-- Merges the nodes of a list that have the same base class. -/
def dedupWith (merge : Component → Component → Component) (xs : List Component) :
    List Component :=
  xs.foldl (fun merged x => absorb merge x merged) []

/-- The last node of a base class in a list. -/
def lastOf? (base : String) (xs : List Component) : Option Component :=
  xs.reverse.find? (·.base = base)

/-- Replaces nodes by those of their class among Elements or Blocks, Elements first. -/
def remap (nested independents ordered : List Component) : List Component :=
  ordered.map fun c =>
    match lastOf? c.base nested with
    | some found => found
    | none => (lastOf? c.base independents).getD c

/-- Merges two nodes, children up to a number of levels below. -/
def mergeTo (levels : Nat) (a b : Component) : Component :=
  let dedup (xs : List Component) : List Component :=
    match levels with
    | 0 => xs
    | levels + 1 => dedupWith (mergeTo levels) xs
  let nested := dedup (a.nested ++ b.nested)
  let independents := dedup (a.independents ++ b.independents)
  .mk a.base b.independent (unique (a.modifiers ++ b.modifiers))
    (AttributeSelector.dedup (a.variants ++ b.variants))
    (AttributeSelector.dedup (a.states ++ b.states))
    nested independents
    (remap nested independents (uniqueBy base (a.ordered ++ b.ordered)))
    a.tag a.isRoot (a.viaDeep && b.viaDeep)

/-- Merges two nodes. -/
def merge (a b : Component) : Component := mergeTo (max a.height b.height) a b

/-- Merges the nodes of a list that have the same base class; each stands where the first of its
class stood. -/
def dedup (xs : List Component) : List Component := dedupWith merge xs

/-- The classes that mergers of a list find to be Block and Element at once, given those of the
merger of two nodes; `merged` is what has been merged so far. -/
def dedupConflictsWith (conflicts : Component → Component → List String) :
    List Component → List Component → List String
  | _, [] => []
  | merged, x :: rest =>
    (match merged.find? (·.base = x.base) with
      | some c => conflicts c x
      | none => []) ++ dedupConflictsWith conflicts (absorb merge x merged) rest

/-- The classes that a merger finds to be Block and Element at once, up to a number of levels
below. -/
def conflictsTo (levels : Nat) (a b : Component) : List String :=
  (if a.independent != b.independent then [a.base] else []) ++
    match levels with
    | 0 => []
    | levels + 1 =>
      dedupConflictsWith (conflictsTo levels) [] (a.nested ++ b.nested) ++
        dedupConflictsWith (conflictsTo levels) [] (a.independents ++ b.independents)

/-- The classes that the merger of two nodes finds to be Block and Element at once, in the order
in which they are met. -/
def conflicts (a b : Component) : List String := conflictsTo (max a.height b.height) a b

/-- The classes that the mergers of a list find to be Block and Element at once. -/
def dedupConflicts (xs : List Component) : List String := dedupConflictsWith conflicts [] xs

/-- The warning about a class that is Block and Element at once. -/
def conflictWarning (base : String) : String :=
  "Base class '" ++ base ++ "' seen as both Block and Element; using the later occurrence."

end BlockMarkup.Component
