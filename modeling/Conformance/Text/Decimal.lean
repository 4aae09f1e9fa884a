/-
# Conformance.Text.Decimal — blanks, decimal digits, and integers read from text.

Two sets of blanks are in use.  `isBlank` is the full set: the ASCII blanks with the four separator
controls, the two Latin-1 blanks and the space separators of Unicode.  `isAsciiBlank` is the small
one, tab to carriage return and the space, which surrounds a number.  Stripping takes blanks of
either set from both ends of a text.

A decimal digit of any script counts: the digits of each script are ten consecutive characters, so
the table holds the zeros alone.  `readInteger` reads one optional sign and digits, with single
underscores allowed between digits and blanks allowed around the whole; a text of more than 4300
digits is refused, whatever its value, and so is an integer of more digits that is to be written.
-/
namespace Conformance

namespace Text

/-! ## Blanks -/

/-- The characters that count as blank anywhere in Unicode. -/
def isBlank (c : Char) : Bool :=
  let n := c.toNat
  (9 ≤ n && n ≤ 13) || (28 ≤ n && n ≤ 32) || n == 0x85 || n == 0xa0 || n == 0x1680
    || (0x2000 ≤ n && n ≤ 0x200a) || n == 0x2028 || n == 0x2029 || n == 0x202f || n == 0x205f
    || n == 0x3000

/-- The blanks that may stand around a number: tab to carriage return, and the space. -/
def isAsciiBlank (c : Char) : Bool :=
  let n := c.toNat
  (9 ≤ n && n ≤ 13) || n == 32

/-- The characters without those of a set at either end. -/
def strip (blank : Char → Bool) (cs : List Char) : List Char :=
  ((cs.dropWhile blank).reverse.dropWhile blank).reverse

/-! ## Digits of all scripts -/

/-- The zero of each script that has decimal digits. -/
def zeros : List Nat :=
  [48, 1632, 1776, 1984, 2406, 2534, 2662, 2790, 2918, 3046, 3174, 3302, 3430, 3558, 3664, 3792,
    3872, 4160, 4240, 6112, 6160, 6470, 6608, 6784, 6800, 6992, 7088, 7232, 7248, 42528, 43216,
    43264, 43472, 43504, 43600, 44016, 65296, 66720, 68912, 69734, 69872, 69942, 70096, 70384,
    70736, 70864, 71248, 71360, 71472, 71904, 72016, 72784, 73040, 73120, 92768, 92864, 93008,
    120782, 120792, 120802, 120812, 120822, 123200, 123632, 125264, 130032]

/-- The value of a decimal digit of any script. -/
def digit? (c : Char) : Option Nat :=
  (zeros.find? fun first => first ≤ c.toNat && c.toNat < first + 10).map (c.toNat - ·)

/-- The value of an ASCII digit. -/
def asciiDigit? (c : Char) : Option Nat :=
  if '0' ≤ c && c ≤ '9' then some (c.toNat - '0'.toNat) else none

/-! ## Integers -/

/-- The most digits that an integer read from text may have. -/
def maxIntegerDigits : Nat := 4300

/-- The digits of an integer, most significant first, from a state that says whether a digit was
just read.  Underscores stand singly, between digits. -/
def readDigits? : Bool → List Char → Option (List Nat)
  | afterDigit, [] => if afterDigit then some [] else none
  | afterDigit, c :: rest =>
    if c = '_' then
      if afterDigit then readDigits? false rest else none
    else
      match digit? c with
      | none => none
      | some d => (readDigits? true rest).map (d :: ·)

/-- The natural number with the given decimal digits, most significant first. -/
def ofDigits (digits : List Nat) : Nat :=
  digits.foldl (fun n d => 10 * n + d) 0

/-- An integer with at most `maxIntegerDigits` digits. -/
def isWritableInteger (n : Int) : Bool :=
  (Nat.toDigits 10 n.natAbs).length ≤ maxIntegerDigits

/-- Why a text spells no integer that can be read. -/
inductive IntegerFault where
  /-- The text is no integer. -/
  | malformed
  /-- The text begins with so many digits, which are too many. -/
  | tooLong (digits : Nat)
  deriving DecidableEq, Repr

/-- A digit, or an underscore between digits. -/
def isDigitMark (c : Char) : Bool := c == '_' || (digit? c).isSome

/-- An unsigned integer.  Too many digits are refused before what follows them is looked at. -/
def readNatural (cs : List Char) : Except IntegerFault Nat :=
  match readDigits? false (cs.takeWhile isDigitMark) with
  | none => .error .malformed
  | some digits =>
    if maxIntegerDigits < digits.length then .error (.tooLong digits.length)
    else if (cs.dropWhile isDigitMark).isEmpty then .ok (ofDigits digits)
    else .error .malformed

/-- Blanks outside ASCII count as blanks around a number, those inside only as `isAsciiBlank`. -/
def isNumberBlank (c : Char) : Bool :=
  if c.toNat < 127 then isAsciiBlank c else isBlank c

/-- **`readInteger`** — the integer that a text spells: blanks, one sign at most, digits, blanks. -/
def readInteger (s : String) : Except IntegerFault Int :=
  match strip isNumberBlank s.toList with
  | '+' :: rest => (readNatural rest).map Int.ofNat
  | '-' :: rest => (readNatural rest).map fun n => -(n : Int)
  | rest => (readNatural rest).map Int.ofNat

end Text

end Conformance
