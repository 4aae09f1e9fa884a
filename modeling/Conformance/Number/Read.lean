/-
# Conformance.Number.Read — the double that a text spells, and the double nearest an integer.

A text spells a number as a sign and digits with a point and an exponent, either of which may be left
out, or as a word for infinity or for what is not a number.  Blanks may stand around it, single
underscores between digits, and the digits may be of any script.
-/
import Conformance.Number.Binary64
import Conformance.Text.Decimal

namespace Conformance

namespace Binary64

/-- A digit of any script as an ASCII digit; any other character as it is. -/
def plainDigit (c : Char) : Char :=
  match Text.digit? c with
  | some d => Char.ofNat ('0'.toNat + d)
  | none => c

/-- The text without its underscores, which must each stand between two digits.  The first argument is
the character before. -/
def withoutUnderscores? : Char → List Char → Option (List Char)
  | previous, [] => if previous = '_' then none else some []
  | previous, c :: rest =>
    if c = '_' then
      if previous.isDigit then withoutUnderscores? c rest else none
    else if previous = '_' && !c.isDigit then none
    else (withoutUnderscores? c rest).map (c :: ·)

/-- The value of ASCII digits, most significant first. -/
def digitsValue (cs : List Char) : Nat :=
  cs.foldl (fun n c => 10 * n + (c.toNat - '0'.toNat)) 0

/-- A sign, if there is one, and what follows. -/
def splitSign : List Char → Bool × List Char
  | '-' :: rest => (true, rest)
  | '+' :: rest => (false, rest)
  | cs => (false, cs)

/-- The exponent that a text spells; no text is no exponent. -/
def exponent? : List Char → Option Int
  | [] => some 0
  | c :: rest =>
    if c = 'e' || c = 'E' then
      let (negative, digits) := splitSign rest
      if digits.isEmpty || !digits.all Char.isDigit then none
      else some (if negative then -(digitsValue digits : Int) else digitsValue digits)
    else none

/-- What follows the whole part: the digits after the point, if there is one, and the rest. -/
def splitFraction : List Char → List Char × List Char
  | '.' :: rest => (rest.takeWhile Char.isDigit, rest.dropWhile Char.isDigit)
  | cs => ([], cs)

/-- The double nearest to a decimal without its sign. -/
def readDecimal? (negative : Bool) (cs : List Char) : Option Binary64 :=
  let whole := cs.takeWhile Char.isDigit
  let (fraction, rest) := splitFraction (cs.dropWhile Char.isDigit)
  if whole.isEmpty && fraction.isEmpty then none
  else
    (exponent? rest).map fun exponent =>
      ofDecimal negative (digitsValue (whole ++ fraction)) (exponent - fraction.length)

/-- The double that a text without blanks and underscores spells. -/
def readPlain? (cs : List Char) : Option Binary64 :=
  let (negative, body) := splitSign cs
  match String.ofList (body.map Char.toLower) with
  | "inf" | "infinity" => some (infinity negative)
  | "nan" => some nan
  | _ => readDecimal? negative body

/-- **`read?`** — the double that a text spells. -/
def read? (s : String) : Option Binary64 :=
  let cs := (Text.strip Text.isNumberBlank s.toList).map plainDigit
  (withoutUnderscores? ' ' cs).bind readPlain?

/-- The double nearest to an integer, unless the integer is beyond all of them. -/
def ofInt? (n : Int) : Option Binary64 :=
  let x := ofDecimal (n < 0) n.natAbs 0
  if x.isFinite then some x else none

/-- The greatest integer that is not above a finite double. -/
def floor (x : Binary64) : Int := Int.fdiv x.scaled unitsPerOne

end Binary64

end Conformance
