import BlockMarkup.Regex.CharSet

/-! # Patterns

Backtracking patterns with groups, repetition, look-around and back references, and the
combinators by which the library writes its own patterns.
-/

namespace BlockMarkup

/-- Conditions on a position that consume nothing. -/
inductive Anchor where
  | textStart
  | lineStart
  | textEnd
  | lineEnd
  /-- The end of the text or the position just before a line feed that ends it. -/
  | textEndOrLastBreak
  /-- Between a word character and something else, or, if negated, anywhere else. -/
  | wordBoundary (ascii : Bool) (negated : Bool)
deriving DecidableEq, Repr

/-- The order in which a repetition tries its lengths; a possessive one tries only the first. -/
inductive Greed where
  | greedy
  | lazy
  | possessive
deriving DecidableEq, Repr

/-- Patterns. In `span` and `loop` an absent upper bound means that there is none. -/
inductive Regex where
  | empty
  | one (set : Regex.CharSet)
  /-- A run of characters of one set. -/
  | span (set : Regex.CharSet) (least : Nat) (most : Option Nat) (greed : Greed)
  | anchor (a : Anchor)
  | seq (first second : Regex)
  | alt (first second : Regex)
  | loop (body : Regex) (least : Nat) (most : Option Nat) (greed : Greed)
  | group (index : Nat) (body : Regex)
  | backref (index : Nat) (rule : Regex.CaseRule)
  /-- Looks ahead, or behind by a fixed number of characters. -/
  | look (behind : Option Nat) (negated : Bool) (body : Regex)
  /-- Commits to the first way in which the body matches. -/
  | atomic (body : Regex)
  /-- Continues by whether a group has matched. -/
  | ifGroup (index : Nat) (yes no : Regex)

namespace Regex

instance : Append Regex := ⟨.seq⟩

/-- The given characters, one after the other. -/
def chars : List Char → Regex
  | [] => .empty
  | [c] => .one (.single c)
  | c :: rest => .seq (.one (.single c)) (chars rest)

/-- A fixed text. -/
def text (s : String) : Regex := chars s.toList

/-- A fixed text, case disregarded. -/
def textAnyCase (s : String) : Regex :=
  s.toList.foldr (fun c r => .seq (.one (CharSet.single c).foldCase) r) .empty

/-- Any number of characters of a set, as many as possible first. -/
def many (s : CharSet) : Regex := .span s 0 none .greedy

/-- One or more characters of a set, as many as possible first. -/
def many1 (s : CharSet) : Regex := .span s 1 none .greedy

/-- Any number of characters of a set, as few as possible first. -/
def few (s : CharSet) : Regex := .span s 0 none .lazy

/-- Any number of blanks. -/
def blanks : Regex := many (.ofKind .blank)

/-- Any characters up to the next place where the pattern can go on. -/
def anyText : Regex := few .anything

/-- Any characters but the given one. -/
def allBut (c : Char) : Regex := many (CharSet.single c).not

/-- The pattern or nothing, the pattern first. -/
def opt (r : Regex) : Regex := .alt r .empty

/-- The first of the given patterns that lets the whole succeed. -/
def oneOf : List Regex → Regex
  | [] => .one ⟨[], false, .exact⟩
  | [r] => r
  | r :: rest => .alt r (oneOf rest)

/-- The fewest and the most characters that a pattern can match, `none` standing for no bound;
`widths` gives those of the groups. -/
def width (widths : Nat → Nat × Option Nat) : Regex → Nat × Option Nat
  | .empty => (0, some 0)
  | .one _ => (1, some 1)
  | .span _ least most _ => (least, most)
  | .anchor _ => (0, some 0)
  | .seq a b =>
    let (la, ha) := width widths a
    let (lb, hb) := width widths b
    (la + lb, do return (← ha) + (← hb))
  | .alt a b =>
    let (la, ha) := width widths a
    let (lb, hb) := width widths b
    (min la lb, do return max (← ha) (← hb))
  | .loop r least most _ =>
    let (l, h) := width widths r
    (l * least, if h = some 0 ∨ most = some 0 then some 0 else do return (← h) * (← most))
  | .group _ r => width widths r
  | .backref i _ => widths i
  | .look _ _ _ => (0, some 0)
  | .atomic r => width widths r
  | .ifGroup _ yes no =>
    let (ly, hy) := width widths yes
    let (ln, hn) := width widths no
    (min ly ln, do return max (← hy) (← hn))

/-- Counts of a repetition from here on are too large to be used. -/
def countLimit : Nat := 4294967295

/-- Whether all counts of repetitions are below the limit. -/
def countsFit : Regex → Bool
  | .empty | .one _ | .anchor _ | .backref _ _ => true
  | .span _ least most _ => least < countLimit && most.all (· < countLimit)
  | .loop r least most _ => least < countLimit && most.all (· < countLimit) && countsFit r
  | .seq a b | .alt a b | .ifGroup _ a b => countsFit a && countsFit b
  | .group _ r | .look _ _ r | .atomic r => countsFit r

end Regex

end BlockMarkup
