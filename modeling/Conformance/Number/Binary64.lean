/-
# Conformance.Number.Binary64 — double-precision numbers and their exact values.

A double is its 64-bit word.  Every finite double is a whole number of *units* of 2^-1074, so its
value is an integer, `Binary64.scaled`, and an integer `n` is `n * 2^1074` units.  `Numeric` is the
value of a number of either sort on that common scale, so that integers and doubles are compared
exactly and without rounding: two numbers are equal exactly when their `Numeric` values are.  The
sign of a zero and the payload of a NaN are not part of the value.

A decimal `digits * 10^exponent` is rounded to the nearest double, a tie going to the even
significand, by exact arithmetic on natural numbers.  The value is first expressed in units of
2^-1074; the spacing of doubles at that magnitude is a power of two, and one rounded quotient gives
the significand.  A carry out of the significand runs into the exponent field, as it should.
-/

namespace Conformance

/-- **`Binary64`** — a double, given by its IEEE 754 word. -/
structure Binary64 where
  bits : UInt64
  deriving DecidableEq, Repr

namespace Binary64

/-! ## Fields of the word -/

/-- The word as a natural number. -/
def word (x : Binary64) : Nat := x.bits.toNat

/-- The sign bit; it is also set in a negative zero and may be set in a NaN. -/
def negative (x : Binary64) : Bool := decide (Nat.pow 2 63 ≤ x.word)

/-- The biased exponent, from 0 to 2047. -/
def biased (x : Binary64) : Nat := x.word / Nat.pow 2 52 % Nat.pow 2 11

/-- The trailing fraction, below 2^52. -/
def fraction (x : Binary64) : Nat := x.word % Nat.pow 2 52

/-- Neither an infinity nor a NaN, which have all exponent bits set. -/
def isFinite (x : Binary64) : Bool := x.biased != 2047

/-- Not a number. -/
def isNaN (x : Binary64) : Bool := x.biased == 2047 && x.fraction != 0

/-- Either zero. -/
def isZero (x : Binary64) : Bool := x.biased == 0 && x.fraction == 0

/-! ## Exact values -/

/-- The number of units of 2^-1074 in one. -/
def unitsPerOne : Nat :=
  let root := Nat.pow 2 179
  root * root * root * root * root * root

theorem unitsPerOne_eq : unitsPerOne = Nat.pow 2 1074 := by decide +kernel

theorem unitsPerOne_pos : 0 < unitsPerOne := by decide +kernel

/-- The distance to the next double of larger magnitude, in units. -/
def spacing (x : Binary64) : Nat := Nat.pow 2 (x.biased - 1)

/-- The magnitude of a finite double, in units. -/
def magnitude (x : Binary64) : Nat :=
  (if x.biased = 0 then x.fraction else Nat.pow 2 52 + x.fraction) * x.spacing

/-- The value of a finite double, in units. -/
def scaled (x : Binary64) : Int :=
  if x.negative then -(x.magnitude : Int) else x.magnitude

/-- The double with a given sign and word without sign bit. -/
def ofWord (negative : Bool) (w : Nat) : Binary64 :=
  ⟨UInt64.ofNat ((if negative then Nat.pow 2 63 else 0) + w)⟩

/-- The positive zero. -/
def zero : Binary64 := ofWord false 0

/-- The infinity of a given sign. -/
def infinity (negative : Bool) : Binary64 := ofWord negative (2047 * Nat.pow 2 52)

/-- The quiet NaN with no payload. -/
def nan : Binary64 := ofWord false (2047 * Nat.pow 2 52 + Nat.pow 2 51)

/-- The integer part of a finite double, rounded toward zero. -/
def truncate (x : Binary64) : Int := Int.tdiv x.scaled unitsPerOne

end Binary64

/-- **`Numeric`** — the exact value of a number, finite ones counted in units of 2^-1074. -/
inductive Numeric where
  | nan
  | infinite (negative : Bool)
  | finite (units : Int)
  deriving DecidableEq, Repr

namespace Numeric

/-- The value of an integer. -/
def ofInt (n : Int) : Numeric := .finite (n * Binary64.unitsPerOne)

/-- The value of a double. -/
def ofBinary64 (x : Binary64) : Numeric :=
  if x.isNaN then .nan
  else if x.isFinite then .finite x.scaled
  else .infinite x.negative

/-- The order-free comparison of arithmetic: a NaN differs from every number, itself included. -/
def eq (p q : Numeric) : Bool := p != .nan && p == q

theorem ofInt_injective {m n : Int} (h : ofInt m = ofInt n) : m = n := by
  have units : m * Binary64.unitsPerOne = n * Binary64.unitsPerOne := Numeric.finite.inj h
  have nonzero : (Binary64.unitsPerOne : Int) ≠ 0 := by
    have := Binary64.unitsPerOne_pos
    omega
  exact Int.eq_of_mul_eq_mul_right nonzero units

end Numeric

namespace Binary64

/-! ## The double nearest a decimal -/

/-- The quotient rounded to the nearest natural number, a tie going to the even one. -/
def roundedQuotient (num den : Nat) : Nat :=
  let quotient := num / den
  let twice := 2 * (num % den)
  if twice < den then quotient
  else if den < twice then quotient + 1
  else if quotient % 2 = 0 then quotient
  else quotient + 1

/-- The word, sign bit aside, of the double nearest to `num / den` units. -/
def nearestWord (num den : Nat) : Nat :=
  let shift := Nat.log2 (num / den) - 52
  let word := shift * Nat.pow 2 52 + roundedQuotient num (den * Nat.pow 2 shift)
  min word (2047 * Nat.pow 2 52)

/-- **`ofDecimal`** — the double nearest to `digits * 10^exponent`, with the given sign.  Decimals
far outside the range of doubles are settled by their order of magnitude alone. -/
def ofDecimal (negative : Bool) (digits : Nat) (exponent : Int) : Binary64 :=
  let order := exponent + (Nat.toDigits 10 digits).length
  if digits = 0 || order < -340 then ofWord negative 0
  else if 320 < order then infinity negative
  else
    let num := digits * Nat.pow 10 exponent.toNat * unitsPerOne
    let den := Nat.pow 10 (-exponent).toNat
    ofWord negative (nearestWord num den)

end Binary64

end Conformance
