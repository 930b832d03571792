/-! # Double precision numbers

Numbers with 53 significant bits, as they are read from decimal text and written back with the
fewest digits that identify them. All arithmetic is exact, on natural numbers.
-/

namespace BlockMarkup

/-- A double precision number; a finite one is `mantissa` times two to the `exponent`. -/
inductive Binary64 where
  | finite (negative : Bool) (mantissa : Nat) (exponent : Int)
  | infinite (negative : Bool)
  | nan
deriving DecidableEq, Repr

namespace Binary64

/-- The exponent of the smallest numbers. -/
def leastExponent : Int := -1074

/-- The largest exponent of a finite number with a full mantissa. -/
def greatestExponent : Int := 971

/-- The least full mantissa, two to the 52nd power. -/
def leastMantissa : Nat := 4503599627370496

/-- The quotient of two numbers rounded to the nearest integer, a half to the even one. -/
def roundDiv (num den : Nat) : Nat :=
  let q := num / den
  let twice := 2 * (num % den)
  if twice < den ∨ (twice = den ∧ q % 2 = 0) then q else q + 1

/-- Two to the `e` as numerator and denominator. -/
def powerOfTwo (e : Int) : Nat × Nat :=
  if 0 ≤ e then (Nat.pow 2 e.toNat, 1) else (1, Nat.pow 2 (-e).toNat)

/-- Ten to the `e` as numerator and denominator. -/
def powerOfTen (e : Int) : Nat × Nat :=
  if 0 ≤ e then (Nat.pow 10 e.toNat, 1) else (1, Nat.pow 10 (-e).toNat)

/-- The number nearest to a positive quotient. -/
def ofQuotient (negative : Bool) (num den : Nat) : Binary64 :=
  let e0 : Int := (num.log2 : Int) - den.log2 - 52
  let (p, q) := powerOfTwo e0
  let e1 := if num * q < leastMantissa * (den * p) then e0 - 1 else e0
  let e := max e1 leastExponent
  let (p, q) := powerOfTwo e
  let m := roundDiv (num * q) (den * p)
  let (m, e) := if m = 2 * leastMantissa then (leastMantissa, e + 1) else (m, e)
  if e > greatestExponent then .infinite negative else .finite negative m e

/-- The number nearest to `digits` times ten to the `exponent`. -/
def ofDecimal (negative : Bool) (digits : Nat) (exponent : Int) : Binary64 :=
  let magnitude : Int := (Nat.toDigits 10 digits).length + exponent
  if digits = 0 ∨ magnitude < -400 then .finite negative 0 leastExponent
  else if magnitude > 400 then .infinite negative
  else
    let (p, q) := powerOfTen exponent
    ofQuotient negative (digits * p) q

/-- The decimal exponent of a quotient below one: the least `j` with `num * 10 ^ j ≥ den`. -/
def negativeMagnitude (num den : Nat) : Nat → Nat → Nat
  | 0, j => j
  | fuel + 1, j => if num * Nat.pow 10 j ≥ den then j else negativeMagnitude num den fuel (j + 1)

/-- The exponent of the leading decimal digit of a positive quotient. -/
def magnitude (num den : Nat) : Int :=
  if num ≥ den then ((Nat.toDigits 10 (num / den)).length : Int) - 1
  else -(negativeMagnitude num den 400 1 : Int)

/-- Looks for the decimal with `n` or more digits that lies between `low` and `high`, all three
taken over `den`, and is nearest to `value`; `closed` says whether the bounds count. -/
def shortestFrom (value low high den : Nat) (closed : Bool) (top : Int) :
    Nat → Nat → Nat × Int
  | 0, _ => (0, 0)
  | fuel + 1, n =>
    let unit : Int := top - n + 1
    let (p, q) := powerOfTen unit
    let step := p * den
    let d := value * q / step
    let inside (c : Nat) : Bool :=
      if closed then low * q ≤ c * step && c * step ≤ high * q
      else low * q < c * step && c * step < high * q
    let below := inside d
    let above := inside (d + 1)
    if below && above then
      let short := value * q - d * step
      let excess := (d + 1) * step - value * q
      if short < excess ∨ (short = excess ∧ d % 2 = 0) then (d, unit) else (d + 1, unit)
    else if below then (d, unit)
    else if above then (d + 1, unit)
    else shortestFrom value low high den closed top fuel (n + 1)

/-- The shortest decimal that identifies a positive number, as digits and exponent. -/
def shortest (mantissa : Nat) (exponent : Int) : Nat × Int :=
  let (p, q) := powerOfTwo exponent
  let value := 4 * mantissa * p
  let high := value + 2 * p
  let low := if mantissa = leastMantissa ∧ exponent > leastExponent then value - p else value - 2 * p
  let den := 4 * q
  shortestFrom value low high den (mantissa % 2 == 0) (magnitude value den) 20 1

/-- Decimal digits with a point: positional from `1e-4` up to below `1e16`, otherwise with an
exponent of at least two digits. -/
def renderDecimal (digits : List Char) (exponent : Int) : List Char :=
  let digits := (digits.reverse.dropWhile (· == '0')).reverse
  let point : Int := exponent
  if -4 < point ∧ point ≤ 16 then
    if point ≤ 0 then "0.".toList ++ List.replicate (-point).toNat '0' ++ digits
    else
      let n := point.toNat
      if digits.length ≤ n then
        digits ++ List.replicate (n - digits.length) '0' ++ ".0".toList
      else digits.take n ++ '.' :: digits.drop n
  else
    let e := point - 1
    let shown := Nat.toDigits 10 e.natAbs
    let shown := if shown.length < 2 then '0' :: shown else shown
    (match digits with
      | [] => []
      | [d] => [d]
      | d :: rest => d :: '.' :: rest) ++
      'e' :: (if e < 0 then '-' else '+') :: shown

/-- The shortest text that identifies the number. -/
def text : Binary64 → String
  | .nan => "nan"
  | .infinite negative => if negative then "-inf" else "inf"
  | .finite negative m e =>
    let body :=
      if m = 0 then "0.0".toList
      else
        let (d, unit) := shortest m e
        let digits := Nat.toDigits 10 d
        renderDecimal digits (digits.length + unit)
    String.ofList (if negative then '-' :: body else body)

/-- Whether the number is a zero of either sign. -/
def isZero : Binary64 → Bool
  | .finite _ m _ => m == 0
  | _ => false

end Binary64

end BlockMarkup
