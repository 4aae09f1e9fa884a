/-
# Conformance.Number.Shortest — the text of a double.

A finite double is written with the fewest significant digits that read back as the same double, and
among those with the digits nearest to its value.  For 1, 2, … 17 digits the two neighbours of the
value on that decimal grid are tested against the interval of reals that round to the double; the
first grid with a hit wins.  All arithmetic is exact, on natural numbers, in quarters of a unit.

The digits are written positionally when the decimal point stands fewer than four places before the
first digit or at most sixteen places after it, and with a signed exponent of at least two digits
otherwise.
-/
import Conformance.Number.Binary64

namespace Conformance

namespace Binary64

/-! ## The interval that rounds to a double -/

/-- Does the decimal `digits * 10^exponent` round to the positive finite double `x`?  The ends of
the interval belong to it exactly when the significand is even.  Just below a power of two the
doubles are twice as dense. -/
def readsBack (x : Binary64) (digits : Nat) (exponent : Int) : Bool :=
  let grain := Nat.pow 10 (-exponent).toNat
  let low := (4 * x.magnitude
    - (if x.fraction = 0 && 1 < x.biased then x.spacing else 2 * x.spacing)) * grain
  let high := (4 * x.magnitude + 2 * x.spacing) * grain
  let candidate := 4 * digits * Nat.pow 10 exponent.toNat * unitsPerOne
  if x.fraction % 2 = 0 then low ≤ candidate && candidate ≤ high
  else low < candidate && candidate < high

/-- The number of decimal digits of a natural number. -/
def digitCount (n : Nat) : Nat := (Nat.toDigits 10 n).length

/-- How many times `num / den`, below one, can be multiplied by ten and stay below one; the first
argument bounds the search. -/
def leadingZeros : Nat → Nat → Nat → Nat
  | 0, _, _ => 0
  | bound + 1, num, den => if num * 10 < den then leadingZeros bound (num * 10) den + 1 else 0

/-- The place of the decimal point of a positive value given in units: the number of digits before
it, or minus the number of zeros that follow it. -/
def pointPlace (units : Nat) : Int :=
  if unitsPerOne ≤ units then digitCount (units / unitsPerOne)
  else -(leadingZeros 400 units unitsPerOne : Int)

/-- The hit, if any, on the grid of `count` digits: of the two neighbours of the value, one that
reads back; of two such the nearer, and the even one of a tie. -/
def shortestAt (x : Binary64) (count : Nat) : Option (Nat × Int) :=
  let exponent := pointPlace x.magnitude - count
  let num := x.magnitude * Nat.pow 10 (-exponent).toNat
  let den := unitsPerOne * Nat.pow 10 exponent.toNat
  let below := num / den
  let twice := 2 * (num % den)
  let preferAbove := den < twice || (den == twice && below % 2 == 1)
  match readsBack x below exponent, readsBack x (below + 1) exponent with
  | true, true => some (if preferAbove then below + 1 else below, exponent)
  | true, false => some (below, exponent)
  | false, true => some (below + 1, exponent)
  | false, false => none

/-- **`shortest`** — digits and exponent of the shortest decimal that reads back as the positive
finite double `x`.  Seventeen digits always suffice. -/
def shortest (x : Binary64) : Nat × Int :=
  ((List.range 17).findSome? fun i => shortestAt x (i + 1)).getD (0, 0)

/-! ## Text -/

/-- Digits without trailing zeros, one digit at least. -/
def significantDigits (digits : Nat) : List Char :=
  match (Nat.toDigits 10 digits).reverse.dropWhile (· == '0') with
  | [] => ['0']
  | kept => kept.reverse

/-- Digits with the decimal point at a place from the first digit, and at least one digit on either
side of it. -/
def positional (digits : List Char) (point : Int) : String :=
  let count := point.toNat
  if point ≤ 0 then
    String.ofList ("0.".toList ++ List.replicate (-point).toNat '0' ++ digits)
  else if digits.length ≤ count then
    String.ofList (digits ++ List.replicate (count - digits.length) '0' ++ ".0".toList)
  else
    String.ofList (digits.take count ++ ['.'] ++ digits.drop count)

/-- One digit, the others after a point, and a signed exponent of at least two digits. -/
def scientific (digits : List Char) (point : Int) : String :=
  let exponent := point - 1
  let tail := match digits.drop 1 with
    | [] => []
    | rest => '.' :: rest
  let written := Nat.toDigits 10 exponent.natAbs
  String.ofList
    (digits.take 1 ++ tail ++ ['e', if exponent < 0 then '-' else '+']
      ++ (if written.length < 2 then '0' :: written else written))

/-- The text of a finite double without its sign. -/
def spellMagnitude (x : Binary64) : String :=
  if x.isZero then "0.0"
  else
    let (digits, exponent) := x.shortest
    let point := exponent + digitCount digits
    let kept := significantDigits digits
    if -4 < point && point ≤ 16 then positional kept point else scientific kept point

/-- **`spell`** — the text of a double.  A negative zero keeps its sign; a NaN has none. -/
def spell (x : Binary64) : String :=
  if x.isNaN then "nan"
  else
    let body := if x.isFinite then x.spellMagnitude else "inf"
    if x.negative then "-" ++ body else body

end Binary64

end Conformance
