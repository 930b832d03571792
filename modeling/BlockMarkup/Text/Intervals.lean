/-! # Tables of code points

Sets of characters beyond ASCII are kept as compact texts: rows separated by blanks, the numbers
of a row in hexadecimal and joined by `-`. This file reads such texts and looks characters up.
-/

namespace BlockMarkup.Text

/-- The value of a lower-case hexadecimal digit. -/
def hexDigit? (c : Char) : Option Nat :=
  if '0' ≤ c ∧ c ≤ '9' then some (c.toNat - '0'.toNat)
  else if 'a' ≤ c ∧ c ≤ 'f' then some (c.toNat - 'a'.toNat + 10)
  else none

/-- Reads rows; `row` holds the finished numbers of the current row, last one first, and `number`
the digits read since. -/
def readRowsFrom (row : List Nat) (number : Option Nat) : List Char → List (List Nat)
  | [] =>
    match number with
    | some n => [(n :: row).reverse]
    | none => []
  | c :: rest =>
    match hexDigit? c with
    | some d => readRowsFrom row (some (number.getD 0 * 16 + d)) rest
    | none =>
      match number with
      | none => readRowsFrom row none rest
      | some n =>
        if c = '-' then readRowsFrom (n :: row) none rest
        else (n :: row).reverse :: readRowsFrom [] none rest

/-- The rows of a table text. -/
def readRows (text : String) : List (List Nat) :=
  readRowsFrom [] none text.toList

/-- An inclusive interval of code points. -/
structure Interval where
  first : Nat
  last : Nat

namespace Interval

/-- Whether a code point lies in the interval. -/
def contains (i : Interval) (code : Nat) : Bool :=
  i.first ≤ code && code ≤ i.last

/-- A row of one number is a single code point, a longer row an interval. -/
def ofRow? : List Nat → Option Interval
  | [] => none
  | [n] => some ⟨n, n⟩
  | a :: b :: _ => some ⟨a, b⟩

end Interval

/-- The intervals that a table text lists. -/
def readIntervals (text : String) : List Interval :=
  (readRows text).filterMap Interval.ofRow?

/-- Whether a character lies in one of the intervals. -/
def inIntervals (table : List Interval) (c : Char) : Bool :=
  table.any (·.contains c.toNat)

end BlockMarkup.Text
