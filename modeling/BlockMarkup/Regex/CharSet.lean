import BlockMarkup.Text.Blank
import BlockMarkup.Text.WordChar
import BlockMarkup.Text.Case

/-! # Sets of characters in a pattern

A set lists ranges of code points and kinds of characters, may be negated, and may disregard case.
-/

namespace BlockMarkup.Regex

open BlockMarkup

/-- How far a pattern distinguishes upper and lower case. -/
inductive CaseRule where
  | exact
  | asciiFold
  | fullFold
deriving DecidableEq, Repr

/-- The kinds of characters that have an escape of their own. -/
inductive CharKind where
  | digit
  | blank
  | word
deriving DecidableEq, Repr

namespace CharKind

/-- Whether a character is of the kind; `ascii` restricts the kind to ASCII. -/
def holds (k : CharKind) (ascii : Bool) (c : Char) : Bool :=
  (!ascii || c.toNat < 128) &&
    match k with
    | .digit => Text.isDecimalDigit c
    | .blank => Text.isBlank c && !(ascii && 28 ≤ c.toNat && c.toNat ≤ 31)
    | .word => Text.isWordChar c

end CharKind

/-- A member of a set: a range of code points, or a kind of characters or its complement. -/
inductive SetItem where
  | range (first last : Nat)
  | kind (k : CharKind) (ascii : Bool) (negated : Bool)
deriving DecidableEq, Repr

/-- A set of characters. -/
structure CharSet where
  items : List SetItem
  negated : Bool := false
  rule : CaseRule := .exact
deriving DecidableEq, Repr

/-- The characters that `runs` maps to the code point `n`. -/
def preimages (runs : List Text.CaseRun) (n : Nat) : List Nat :=
  runs.filterMap fun r =>
    if r.target ≤ n ∧ n - r.target ≤ r.last - r.first ∧ (n - r.target) % r.step = 0 then
      some (r.first + (n - r.target))
    else none

/-- The code points whose lower case is the given one. -/
def unlowered (n : Nat) : List Nat :=
  (if 97 ≤ n ∧ n ≤ 122 then [n - 32] else []) ++ preimages Text.lowerRuns n

/-- All code points that count as equal to a character. -/
def CaseRule.variants (rule : CaseRule) (c : Char) : List Nat :=
  match rule with
  | .exact => [c.toNat]
  | .asciiFold => [c.toLower.toNat, c.toUpper.toNat]
  | .fullFold =>
    let low := Text.lowerChar c
    let lows := low.toNat :: (Text.foldCompanionsOf low).map Char.toNat
    lows ++ lows.flatMap unlowered

/-- Equality of characters as a repeated group sees it. -/
def CaseRule.same (rule : CaseRule) (a b : Char) : Bool :=
  match rule with
  | .exact => a == b
  | .asciiFold => a.toLower == b.toLower
  | .fullFold => Text.lowerChar a == Text.lowerChar b

/-- Whether a member covers a character of which `variants` are the equal code points. -/
def SetItem.covers (variants : List Nat) (c : Char) : SetItem → Bool
  | .range first last => variants.any fun n => first ≤ n && n ≤ last
  | .kind k ascii negated => k.holds ascii c != negated

namespace CharSet

/-- Whether a character belongs to the set. -/
def contains (s : CharSet) (c : Char) : Bool :=
  s.items.any (SetItem.covers (s.rule.variants c) c) != s.negated

/-- The set of one character. -/
def single (c : Char) : CharSet := ⟨[.range c.toNat c.toNat], false, .exact⟩

/-- The set of the characters of a text. -/
def ofList (cs : List Char) : CharSet := ⟨cs.map fun c => .range c.toNat c.toNat, false, .exact⟩

/-- The characters from one to another. -/
def between (a b : Char) : CharSet := ⟨[.range a.toNat b.toNat], false, .exact⟩

/-- All characters of one kind. -/
def ofKind (k : CharKind) : CharSet := ⟨[.kind k false false], false, .exact⟩

/-- Every character. -/
def anything : CharSet := ⟨[], true, .exact⟩

/-- The complement. -/
def not (s : CharSet) : CharSet := { s with negated := !s.negated }

/-- The union of two plain sets, with the case rule of the first. -/
def or (s t : CharSet) : CharSet := ⟨s.items ++ t.items, s.negated, s.rule⟩

/-- The same set, case disregarded. -/
def foldCase (s : CharSet) : CharSet := { s with rule := .fullFold }

theorem contains_not (s : CharSet) (c : Char) : s.not.contains c = !s.contains c := by
  unfold not contains
  cases s.items.any (SetItem.covers (s.rule.variants c) c) <;> cases s.negated <;> rfl

theorem contains_single (a c : Char) : (single a).contains c = (c == a) := by
  simp only [single, contains, CaseRule.variants, SetItem.covers, List.any_cons, List.any_nil,
    Bool.or_false, Bool.bne_false]
  rw [Bool.eq_iff_iff]
  simp only [Bool.and_eq_true, decide_eq_true_eq, beq_iff_eq]
  constructor
  · intro h
    exact Char.ext (UInt32.toNat_inj.1 (Nat.le_antisymm h.2 h.1))
  · rintro rfl
    exact ⟨Nat.le_refl _, Nat.le_refl _⟩

end CharSet

end BlockMarkup.Regex
