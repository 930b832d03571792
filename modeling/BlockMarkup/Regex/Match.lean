import BlockMarkup.Regex.Basic

/-! # Matching

A pattern is run at a cursor with a continuation that says whether the rest of the match
succeeds; alternatives are tried in order, so the first success is the match. On top of it stand
the search for the first match, the list of all matches, and replacement.
-/

namespace BlockMarkup.Regex

/-- The part of a text that a group has matched: what follows its start, and its length. -/
structure Capture where
  after : List Char
  length : Nat

/-- The text of a capture. -/
def Capture.text (c : Capture) : List Char := c.after.take c.length

/-- A position in a text: the characters before it, last one first, those after it, how many stand
before it, and the groups matched so far, latest first. -/
structure Cursor where
  before : List Char
  after : List Char
  pos : Nat
  groups : List (Nat × Capture) := []

namespace Cursor

/-- The start of a text. -/
def start (s : List Char) : Cursor := ⟨[], s, 0, []⟩

/-- The cursor one character further. -/
def next? (s : Cursor) : Option Cursor :=
  match s.after with
  | [] => none
  | c :: rest => some { s with before := c :: s.before, after := rest, pos := s.pos + 1 }

/-- The cursor `n` characters further, or at the end. -/
def advance : Nat → Cursor → Cursor
  | 0, s => s
  | n + 1, s =>
    match s.after with
    | [] => s
    | c :: rest => advance n { s with before := c :: s.before, after := rest, pos := s.pos + 1 }

/-- The cursor `n` characters back. -/
def back? : Nat → Cursor → Option Cursor
  | 0, s => some s
  | n + 1, s =>
    match s.before with
    | [] => none
    | c :: rest => back? n { s with before := rest, after := c :: s.after, pos := s.pos - 1 }

/-- The characters between a cursor and a later one. -/
def textTo (s t : Cursor) : List Char :=
  s.after.take (t.pos - s.pos)

/-- The text of a group. -/
def group? (s : Cursor) (index : Nat) : Option (List Char) :=
  (s.groups.lookup index).map Capture.text

/-- Records that a group goes from one cursor to another. -/
def record (start stop : Cursor) (index : Nat) : Cursor :=
  let capture : Capture := ⟨start.after, stop.pos - start.pos⟩
  { stop with groups := (index, capture) :: stop.groups.filter (·.1 != index) }

end Cursor

/-- Whether a position meets a condition. No word boundary, negated or not, lies in an empty
text. -/
def anchorHolds (a : Anchor) (s : Cursor) : Bool :=
  match a with
  | .textStart => s.before.isEmpty
  | .lineStart => s.before.isEmpty || s.before.head? == some '\n'
  | .textEnd => s.after.isEmpty
  | .lineEnd => s.after.isEmpty || s.after.head? == some '\n'
  | .textEndOrLastBreak => s.after.isEmpty || s.after == ['\n']
  | .wordBoundary ascii negated =>
    let inWord := fun (c : Option Char) => c.any (CharKind.word.holds ascii)
    !(s.before.isEmpty && s.after.isEmpty) &&
      ((inWord s.before.head? != inWord s.after.head?) != negated)

/-- The cursors after none, one, two and more characters of a set, as long as the set goes on and
the bound is not reached. -/
def stops (set : CharSet) : Option Nat → List Char → List Char → Nat → List (Nat × Capture) →
    List Cursor
  | _, before, [], pos, groups => [⟨before, [], pos, groups⟩]
  | most, before, c :: rest, pos, groups =>
    ⟨before, c :: rest, pos, groups⟩ ::
      if most != some 0 && set.contains c then
        stops set (most.map (· - 1)) (c :: before) rest (pos + 1) groups
      else []

/-- The cursors at which a run of characters may stop, in the order of trial. -/
def spanStops (set : CharSet) (least : Nat) (most : Option Nat) (greed : Greed) (s : Cursor) :
    List Cursor :=
  let all := (stops set most s.before s.after s.pos s.groups).drop least
  match greed with
  | .greedy => all.reverse
  | .lazy => all
  | .possessive => all.getLast?.toList

/-- One way to run a pattern: from a cursor, with what is left to do. -/
abbrev Step := Cursor → (Cursor → Option Cursor) → Option Cursor

/-- Repeats a step, the longest repetition first. `count` is the number of rounds done, and
`last` where the latest optional round began: a round that consumes nothing is not repeated. -/
def iterateGreedy (step : Step) (least : Nat) (most : Option Nat) :
    Nat → Nat → Option Nat → Step
  | 0, _, _, s, k => k s
  | fuel + 1, count, last, s, k =>
    if count < least then
      step s fun t => iterateGreedy step least most fuel (count + 1) last t k
    else if most.all (count < ·) && last != some s.pos then
      match step s fun t => iterateGreedy step least most fuel (count + 1) (some s.pos) t k with
      | some t => some t
      | none => k s
    else k s

/-- Repeats a step, the shortest repetition first. -/
def iterateLazy (step : Step) (least : Nat) (most : Option Nat) :
    Nat → Nat → Option Nat → Step
  | 0, _, _, s, k => k s
  | fuel + 1, count, last, s, k =>
    if count < least then
      step s fun t => iterateLazy step least most fuel (count + 1) last t k
    else
      match k s with
      | some t => some t
      | none =>
        if most.all (count < ·) && last != some s.pos then
          step s fun t => iterateLazy step least most fuel (count + 1) (some s.pos) t k
        else none

/-- Repeats a step, committing to the first way of each round. -/
def iteratePossessive (step : Step) (least : Nat) (most : Option Nat) :
    Nat → Nat → Cursor → Option Cursor
  | 0, _, s => some s
  | fuel + 1, count, s =>
    if most.all (count < ·) then
      match step s some with
      | none => if count < least then none else some s
      | some t =>
        if t.pos = s.pos ∧ least ≤ count then some t
        else iteratePossessive step least most fuel (count + 1) t
    else some s

/-- Consumes a given text, characters being compared by a case rule. -/
def eat (rule : CaseRule) : List Char → Cursor → Option Cursor
  | [], s => some s
  | c :: rest, s =>
    match s.after with
    | d :: _ => if rule.same c d then s.next?.bind (eat rule rest) else none
    | [] => none

/-- Runs a pattern at a cursor and hands each end it reaches to the continuation, in order, until
one succeeds. -/
def run : Regex → Step
  | .empty, s, k => k s
  | .one set, s, k =>
    match s.after with
    | [] => none
    | c :: rest =>
      if set.contains c then
        k { s with before := c :: s.before, after := rest, pos := s.pos + 1 }
      else none
  | .span set least most greed, s, k => (spanStops set least most greed s).findSome? k
  | .anchor a, s, k => if anchorHolds a s then k s else none
  | .seq a b, s, k => run a s fun t => run b t k
  | .alt a b, s, k =>
    match run a s k with
    | some t => some t
    | none => run b s k
  | .loop r least most greed, s, k =>
    let fuel := least + 2 * s.after.length + 2
    match greed with
    | .greedy => iterateGreedy (run r) least most fuel 0 none s k
    | .lazy => iterateLazy (run r) least most fuel 0 none s k
    | .possessive => (iteratePossessive (run r) least most fuel 0 s).bind k
  | .group i r, s, k => run r s fun t => k (s.record t i)
  | .backref i rule, s, k => (s.group? i).bind fun t => (eat rule t s).bind k
  | .look behind negated r, s, k =>
    let found := (Cursor.back? (behind.getD 0) s).bind fun t => run r t some
    match negated, found with
    | false, some t => k { s with groups := t.groups }
    | true, none => k s
    | _, _ => none
  | .atomic r, s, k => (run r s some).bind k
  | .ifGroup i yes no, s, k =>
    if (s.groups.lookup i).isSome then run yes s k else run no s k

/-- A match: where it begins and ends. -/
structure Match where
  start : Cursor
  stop : Cursor

namespace Match

/-- The matched text. -/
def text (m : Match) : List Char := m.start.textTo m.stop

/-- The text of a group, empty if the group took no part. -/
def group (m : Match) (index : Nat) : List Char := (m.stop.group? index).getD []

end Match

/-- The match at a position, if there is one. -/
def matchAt (r : Regex) (s : Cursor) : Option Match :=
  (run r { s with groups := [] } some).map (⟨s, ·⟩)

/-- The first match at or after a position; `nonempty` demands that one at the position itself
consume something. -/
def findFrom (r : Regex) (nonempty : Bool) (before : List Char) : List Char → Nat → Option Match
  | [], pos =>
    let s : Cursor := ⟨before, [], pos, []⟩
    (run r s fun t => if nonempty && t.pos == pos then none else some t).map (⟨s, ·⟩)
  | c :: rest, pos =>
    let s : Cursor := ⟨before, c :: rest, pos, []⟩
    match run r s fun t => if nonempty && t.pos == pos then none else some t with
    | some t => some ⟨s, t⟩
    | none => findFrom r false (c :: before) rest (pos + 1)

/-- The first match in a text. -/
def find? (r : Regex) (s : List Char) : Option Match :=
  findFrom r false [] s 0

/-- Whether the pattern matches somewhere in a text. -/
def matchesIn (r : Regex) (s : List Char) : Bool :=
  (find? r s).isSome

/-- A text cut at the matches of a pattern. -/
inductive Piece where
  | plain (s : List Char)
  | hit (m : Match)

/-- Cuts the rest of a text; `fuel` bounds the number of matches. -/
def piecesFrom (r : Regex) : Nat → Bool → Cursor → List Piece
  | 0, _, s => [.plain s.after]
  | fuel + 1, nonempty, s =>
    match findFrom r nonempty s.before s.after s.pos with
    | none => [.plain s.after]
    | some m =>
      .plain (s.textTo m.start) :: .hit m ::
        piecesFrom r fuel (m.stop.pos == m.start.pos) m.stop

/-- Cuts a text at the matches of a pattern, from left to right and without overlap. -/
def pieces (r : Regex) (s : List Char) : List Piece :=
  piecesFrom r (2 * s.length + 2) false (.start s)

/-- All matches in a text. -/
def allMatches (r : Regex) (s : List Char) : List Match :=
  (pieces r s).filterMap fun
    | .plain _ => none
    | .hit m => some m

/-- Replaces all matches. -/
def replaceAll (r : Regex) (f : Match → List Char) (s : List Char) : List Char :=
  (pieces r s).flatMap fun
    | .plain t => t
    | .hit m => f m

/-- Removes all matches. -/
def removeAll (r : Regex) (s : List Char) : List Char :=
  replaceAll r (fun _ => []) s

/-- Replaces the first match only. -/
def replaceFirst (r : Regex) (f : Match → List Char) (s : List Char) : List Char :=
  match find? r s with
  | none => s
  | some m => m.start.before.reverse ++ f m ++ m.stop.after

end BlockMarkup.Regex
