import BlockMarkup.Json.Reader

/-! # The grammar of JSON

Which texts are JSON, and for which values, without regard to how they are read. The relations say what
stands at the front of a text, and what is left behind it: `Gap` blanks, `Quoted` the inside of a string and
its closing quote, `Denotes` a value, the items of an array or the members of an object. Numbers are the
texts of proper numerals. `Overlong` says that a text is in order up to an integer with more digits than are
read.
-/

namespace BlockMarkup.Json

/-! ## Blanks -/

/-- The blanks that may stand between the parts of a text. -/
def gapChars : List Char := [' ', '\t', '\n', '\r']

/-- Blanks, or none, stand in front of what is left. -/
inductive Gap : List Char → List Char → Prop where
  | nil {s : List Char} : Gap s s
  | cons {c : Char} {s t : List Char} (hc : c ∈ gapChars) (h : Gap s t) : Gap (c :: s) t

/-! ## Strings -/

/-- A code escape stands in front of what is left. -/
def CodeAt (n : Nat) (s t : List Char) : Prop :=
  ∃ ds, ds.length = 4 ∧ hexCode? ds = some n ∧ s = '\\' :: 'u' :: (ds ++ t)

/-- The codes of first halves of pairs. -/
def IsHigh (n : Nat) : Prop := 0xd800 ≤ n ∧ n ≤ 0xdbff

/-- The codes of second halves of pairs. -/
def IsLow (n : Nat) : Prop := 0xdc00 ≤ n ∧ n ≤ 0xdfff

/-- The character of a pair. -/
def pairChar (high low : Nat) : Char :=
  Char.ofNat (0x10000 + (high - 0xd800) * 1024 + (low - 0xdc00))

/-- The rest of a string, which stands for the characters in the middle, and its closing quote. -/
inductive Quoted : List Char → List Char → List Char → Prop where
  | close {t : List Char} : Quoted ('"' :: t) [] t
  | plain {c : Char} {s cs t : List Char} (hquote : c ≠ '"') (hescape : c ≠ '\\')
      (hcontrol : 0x1f < c.toNat) (h : Quoted s cs t) : Quoted (c :: s) (c :: cs) t
  | short {e c : Char} {s cs t : List Char} (he : shortEscape? e = some c) (h : Quoted s cs t) :
      Quoted ('\\' :: e :: s) (c :: cs) t
  | code {n : Nat} {s s' cs t : List Char} (hn : CodeAt n s s')
      (hlone : IsHigh n → ∀ m u, CodeAt m s' u → ¬ IsLow m) (h : Quoted s' cs t) :
      Quoted s (codeChar n :: cs) t
  | pair {n m : Nat} {s s' s'' cs t : List Char} (hn : CodeAt n s s') (hhigh : IsHigh n)
      (hm : CodeAt m s' s'') (hlow : IsLow m) (h : Quoted s'' cs t) :
      Quoted s (pairChar n m :: cs) t

/-! ## Numbers -/

/-- The exponent of a number as it is written. -/
structure Exponent where
  mark : Char
  sign : List Char
  digits : List Char

namespace Exponent

/-- The characters of an exponent. -/
def text (x : Exponent) : List Char := x.mark :: (x.sign ++ x.digits)

/-- The number that an exponent stands for, as far as twelve digits can tell. -/
def value (x : Exponent) : Int :=
  let n : Int := decimal (x.digits.dropWhile (· == '0') |>.take 12)
  if x.sign = ['-'] then -n else n

/-- An exponent has a mark, possibly a sign, and digits. -/
structure IsProper (x : Exponent) : Prop where
  mark : x.mark = 'e' ∨ x.mark = 'E'
  sign : x.sign = [] ∨ x.sign = ['+'] ∨ x.sign = ['-']
  ne_nil : x.digits ≠ []
  isDigit : ∀ c ∈ x.digits, c.isDigit = true

end Exponent

/-- The point and the digits behind it; without digits there is no point. -/
def pointed (fraction : List Char) : List Char :=
  if fraction.isEmpty then [] else '.' :: fraction

/-- A number as it is written. -/
structure Numeral where
  negative : Bool
  whole : List Char
  fraction : List Char
  exponent : Option Exponent

namespace Numeral

/-- The characters before the digits. -/
def sign (n : Numeral) : List Char := if n.negative then ['-'] else []

/-- The characters of the exponent. -/
def power (n : Numeral) : List Char := (n.exponent.map Exponent.text).getD []

/-- The characters of a number. -/
def text (n : Numeral) : List Char := n.sign ++ (n.whole ++ (pointed n.fraction ++ n.power))

/-- Whether there are digits before a point only. -/
def isInteger (n : Numeral) : Bool := n.fraction.isEmpty && n.exponent.isNone

/-- The value of a number. -/
def value (n : Numeral) : Json :=
  if n.isInteger then .int (if n.negative then -(decimal n.whole : Int) else decimal n.whole)
  else
    .float (.ofDecimal n.negative (decimal (n.whole ++ n.fraction))
      ((n.exponent.map Exponent.value).getD 0 - n.fraction.length))

/-- The digits are digits, and a zero in front stands alone. -/
structure IsProper (n : Numeral) : Prop where
  ne_nil : n.whole ≠ []
  zero : n.whole.head? = some '0' → n.whole = ['0']
  whole : ∀ c ∈ n.whole, c.isDigit = true
  fraction : ∀ c ∈ n.fraction, c.isDigit = true
  exponent : ∀ x ∈ n.exponent, x.IsProper

/-- An integer with more digits than are read. -/
def IsLong (n : Numeral) : Prop := n.isInteger = true ∧ digitLimit < n.whole.length

instance (n : Numeral) : Decidable n.IsLong :=
  inferInstanceAs (Decidable (n.isInteger = true ∧ digitLimit < n.whole.length))

end Numeral

/-- A number does not go on with these characters. -/
structure Stops (t : List Char) : Prop where
  digit : ∀ c, t.head? = some c → c.isDigit = false
  fraction : ∀ c u, t = '.' :: c :: u → c.isDigit = false
  exponent : ∀ x : Exponent, x.IsProper → ∀ u, t ≠ x.text ++ u

/-! ## Values -/

/-- What a part of a text can stand for. -/
inductive Part where
  | value (v : Json)
  | items (vs : List Json)
  | members (ms : List (String × Json))

/-- A sign with blanks around it stands in front of what is left. -/
def SignAt (c : Char) (s t : List Char) : Prop := ∃ u, Gap s (c :: u) ∧ Gap u t

/-- A key and a colon stand in front of what is left. -/
def KeyAt (key : String) (s t : List Char) : Prop :=
  ∃ s' cs u, s = '"' :: s' ∧ Quoted s' cs u ∧ String.ofList cs = key ∧ SignAt ':' u t

/-- The members of an object: of several with the same key, the last one counts. -/
def gathered (before ms : List (String × Json)) : List (String × Json) :=
  ms.foldl (fun found (key, v) => setMember key v found) before

/-- A part stands in front of what is left; items and members go up to their closing bracket. -/
inductive Denotes : List Char → Part → List Char → Prop where
  | word {w t : List Char} {v : Json} (h : (w, v) ∈ wordValues) : Denotes (w ++ t) (.value v) t
  | number {n : Numeral} {t : List Char} (h : n.IsProper) : Denotes (n.text ++ t) (.value n.value) t
  | string {s cs t : List Char} (h : Quoted s cs t) :
      Denotes ('"' :: s) (.value (.str (String.ofList cs))) t
  | emptyArray {s t : List Char} (hend : Gap s (']' :: t)) : Denotes ('[' :: s) (.value (.arr [])) t
  | array {s s' t : List Char} {vs : List Json} (hgap : Gap s s') (h : Denotes s' (.items vs) t) :
      Denotes ('[' :: s) (.value (.arr vs)) t
  | emptyObject {s t : List Char} (hend : Gap s ('\x7d' :: t)) :
      Denotes ('\x7b' :: s) (.value (.obj [])) t
  | object {s s' t : List Char} {ms : List (String × Json)} (hgap : Gap s s')
      (h : Denotes s' (.members ms) t) : Denotes ('\x7b' :: s) (.value (.obj (gathered [] ms))) t
  | lastItem {s s' t : List Char} {v : Json} (h : Denotes s (.value v) s')
      (hend : Gap s' (']' :: t)) : Denotes s (.items [v]) t
  | item {s s' u t : List Char} {v : Json} {vs : List Json} (h : Denotes s (.value v) s')
      (hcomma : SignAt ',' s' u) (hrest : Denotes u (.items vs) t) : Denotes s (.items (v :: vs)) t
  | lastMember {s s' s'' t : List Char} {key : String} {v : Json} (hkey : KeyAt key s s')
      (h : Denotes s' (.value v) s'') (hend : Gap s'' ('\x7d' :: t)) :
      Denotes s (.members [(key, v)]) t
  | member {s s' s'' u t : List Char} {key : String} {v : Json} {ms : List (String × Json)}
      (hkey : KeyAt key s s') (h : Denotes s' (.value v) s'') (hcomma : SignAt ',' s'' u)
      (hrest : Denotes u (.members ms) t) : Denotes s (.members ((key, v) :: ms)) t

/-- A text is JSON for a value: the value with blanks around it. -/
def IsJson (s : List Char) (v : Json) : Prop :=
  ∃ s' t, Gap s s' ∧ Denotes s' (.value v) t ∧ Gap t []

/-! ## Integers that are too long -/

/-- What a part of a text is to be. -/
inductive Place where
  | value
  | items
  | members

/-- A part is in order up to an integer with too many digits. -/
inductive Overlong : Place → List Char → Prop where
  | number {n : Numeral} {t : List Char} (h : n.IsProper) (hlong : n.IsLong) (hstops : Stops t) :
      Overlong .value (n.text ++ t)
  | array {s s' : List Char} (hgap : Gap s s') (h : Overlong .items s') : Overlong .value ('[' :: s)
  | object {s s' : List Char} (hgap : Gap s s') (h : Overlong .members s') :
      Overlong .value ('\x7b' :: s)
  | firstItem {s : List Char} (h : Overlong .value s) : Overlong .items s
  | laterItem {s s' u : List Char} {v : Json} (hitem : Denotes s (.value v) s')
      (hcomma : SignAt ',' s' u) (h : Overlong .items u) : Overlong .items s
  | firstMember {s s' : List Char} {key : String} (hkey : KeyAt key s s')
      (h : Overlong .value s') : Overlong .members s
  | laterMember {s s' s'' u : List Char} {key : String} {v : Json} (hkey : KeyAt key s s')
      (hvalue : Denotes s' (.value v) s'') (hcomma : SignAt ',' s'' u) (h : Overlong .members u) :
      Overlong .members s

/-- A text is in order up to an integer with too many digits. -/
def IsOverlong (s : List Char) : Prop := ∃ s', Gap s s' ∧ Overlong .value s'

end BlockMarkup.Json
