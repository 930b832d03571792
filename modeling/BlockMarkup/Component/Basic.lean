import BlockMarkup.Unique

/-! # Components

Classed elements as a tree of Blocks and Elements, and the attribute selectors that tell their
variants and states apart.
-/

namespace BlockMarkup

/-- An attribute that marks a variant or a state, with an empty value if it has none. -/
structure AttributeSelector where
  key : String
  value : String
deriving DecidableEq, Repr

namespace AttributeSelector

/-- What identifies the attribute among others. -/
def identity (a : AttributeSelector) : String := a.key ++ "=" ++ a.value

/-- The selector for elements with the attribute. -/
def selector (a : AttributeSelector) : String :=
  if a.value = "" then "[" ++ a.key ++ "]" else "[" ++ a.key ++ "=\"" ++ a.value ++ "\"]"

/-- The first selector of every identity. -/
def dedup (as : List AttributeSelector) : List AttributeSelector :=
  uniqueBy identity as

end AttributeSelector

/-- A node of a component tree. `nested` holds the Elements below it, `independents` the Blocks,
and `ordered` both in the order of the markup. -/
inductive Component where
  | mk (base : String) (independent : Bool) (modifiers : List String)
      (variants states : List AttributeSelector) (nested independents ordered : List Component)
      (tag : String) (isRoot viaDeep : Bool)
deriving Repr

namespace Component

/-- The first class of the node, which names it. -/
def base : Component → String
  | mk b .. => b

/-- Whether the node is a Block. -/
def independent : Component → Bool
  | mk _ i .. => i

/-- The other classes of the node. -/
def modifiers : Component → List String
  | mk _ _ m .. => m

/-- The attributes that mark variants. -/
def variants : Component → List AttributeSelector
  | mk _ _ _ v .. => v

/-- The attributes that mark states. -/
def states : Component → List AttributeSelector
  | mk _ _ _ _ s .. => s

/-- The Elements below the node. -/
def nested : Component → List Component
  | mk _ _ _ _ _ n .. => n

/-- The Blocks below the node. -/
def independents : Component → List Component
  | mk _ _ _ _ _ _ i .. => i

/-- All nodes below the node. -/
def ordered : Component → List Component
  | mk _ _ _ _ _ _ _ o .. => o

/-- The name of the element. -/
def tag : Component → String
  | mk _ _ _ _ _ _ _ _ t .. => t

/-- Whether the node is the root of a page. -/
def isRoot : Component → Bool
  | mk _ _ _ _ _ _ _ _ _ r _ => r

/-- Whether elements without classes stand between the node and the one above it. -/
def viaDeep : Component → Bool
  | mk _ _ _ _ _ _ _ _ _ _ d => d

/-- All classes of the node. -/
def classes (c : Component) : List String := c.base :: c.modifiers

/-- The node, marked as the root of a page or not. -/
def withRoot (isRoot : Bool) : Component → Component
  | mk b i m v s n is o t _ d => mk b i m v s n is o t isRoot d

/-- The node, marked as standing below elements without classes. -/
def markDeep : Component → Component
  | mk b i m v s n is o t r _ => mk b i m v s n is o t r true

mutual

/-- The number of levels of the tree. -/
def depth : Component → Nat
  | mk _ _ _ _ _ _ _ o _ _ _ => depthOfAll o + 1

/-- The number of levels of several trees side by side. -/
def depthOfAll : List Component → Nat
  | [] => 0
  | c :: rest => max (depth c) (depthOfAll rest)

end

mutual

/-- The number of levels of Elements and Blocks below a node. -/
def height : Component → Nat
  | mk _ _ _ _ _ n is _ _ _ _ => max (heightOfAll n) (heightOfAll is)

/-- The number of levels of several nodes side by side. -/
def heightOfAll : List Component → Nat
  | [] => 0
  | c :: rest => max (height c + 1) (heightOfAll rest)

end

mutual

/-- The number of nodes of the tree. -/
def count : Component → Nat
  | mk _ _ _ _ _ _ _ o _ _ _ => countOfAll o + 1

/-- The number of nodes of several trees. -/
def countOfAll : List Component → Nat
  | [] => 0
  | c :: rest => count c + countOfAll rest

end

/-- The nodes a number of levels below some nodes. -/
def descendants : Nat → List Component → List Component
  | 0, cs => cs
  | n + 1, cs => descendants n (cs.flatMap ordered)

/-- The nodes of the deepest level. -/
def deepest (c : Component) : List Component := descendants (c.depth - 1) [c]

/-! ## Equality -/

mutual

/-- Equality of trees is decidable. -/
def decEq : (a b : Component) → Decidable (a = b)
  | mk b i m v s n is o t r d, mk b' i' m' v' s' n' is' o' t' r' d' =>
    if h : b = b' ∧ i = i' ∧ m = m' ∧ v = v' ∧ s = s' ∧ t = t' ∧ r = r' ∧ d = d' then
      match decEqAll n n', decEqAll is is', decEqAll o o' with
      | .isTrue hn, .isTrue hi, .isTrue ho =>
        .isTrue (by obtain ⟨rfl, rfl, rfl, rfl, rfl, rfl, rfl, rfl⟩ := h; subst hn hi ho; rfl)
      | .isFalse hn, _, _ => .isFalse (by intro e; cases e; exact hn rfl)
      | _, .isFalse hi, _ => .isFalse (by intro e; cases e; exact hi rfl)
      | _, _, .isFalse ho => .isFalse (by intro e; cases e; exact ho rfl)
    else .isFalse (by intro e; cases e; exact h ⟨rfl, rfl, rfl, rfl, rfl, rfl, rfl, rfl⟩)

/-- Equality of lists of trees is decidable. -/
def decEqAll : (xs ys : List Component) → Decidable (xs = ys)
  | [], [] => .isTrue rfl
  | [], _ :: _ => .isFalse (by intro e; cases e)
  | _ :: _, [] => .isFalse (by intro e; cases e)
  | x :: xs, y :: ys =>
    match withPtrEqDecEq x y (fun _ => decEq x y), decEqAll xs ys with
    | .isTrue h, .isTrue hs => .isTrue (by rw [h, hs])
    | .isFalse h, _ => .isFalse (by intro e; cases e; exact h rfl)
    | _, .isFalse hs => .isFalse (by intro e; cases e; exact hs rfl)

end

instance : DecidableEq Component := fun a b => withPtrEqDecEq a b fun _ => decEq a b

end Component

end BlockMarkup
