/-
# Conformance.Toml.Basic — characters and blanks of TOML documents.

Readers take the characters that are left and return what they read with what is left after it.
-/
import Conformance.Text.Decimal
import Conformance.Value.Equal

namespace Conformance

namespace Toml

/-- **`Fault`** — why a document cannot be read: it is not in the format, or an integer in it has too
many digits. -/
inductive Fault where
  | malformed
  | longInteger (digits : Nat)
  deriving DecidableEq, Repr

/-- A result, or the fault that prevents it. -/
abbrev Result := Except Fault

/-- A line feed ends a line, whether or not a carriage return stands before it. -/
def joinLineEnds : List Char → List Char
  | '\r' :: '\n' :: rest => '\n' :: joinLineEnds rest
  | c :: rest => c :: joinLineEnds rest
  | [] => []

/-- Blanks within a line. -/
def isBlank (c : Char) : Bool := c == ' ' || c == '\t'

/-- Blanks and line ends. -/
def isSpace (c : Char) : Bool := isBlank c || c == '\n'

/-- Control characters, the tab apart, which may stand neither in a comment nor in a text. -/
def isControl (c : Char) : Bool := (c.toNat < 32 && c != '\t') || c.toNat == 127

/-- Characters of a key without quotes. -/
def isBare (c : Char) : Bool :=
  ('a' ≤ c && c ≤ 'z') || ('A' ≤ c && c ≤ 'Z') || ('0' ≤ c && c ≤ '9') || c == '-' || c == '_'

/-- Leave out blanks. -/
def skipBlanks (cs : List Char) : List Char := cs.dropWhile isBlank

/-- The rest of a comment, up to the end of its line. -/
def skipToLineEnd : List Char → Result (List Char)
  | [] => .ok []
  | c :: rest =>
    if c = '\n' then .ok (c :: rest)
    else if isControl c then .error .malformed
    else skipToLineEnd rest

/-- Leave out a comment, if there is one. -/
def skipComment : List Char → Result (List Char)
  | '#' :: rest => skipToLineEnd rest
  | cs => .ok cs

/-- Leave out blanks, line ends and comments; the flag says whether a comment is open. -/
def skipSpace : Bool → List Char → Result (List Char)
  | _, [] => .ok []
  | true, c :: rest =>
    if c = '\n' then skipSpace false rest
    else if isControl c then .error .malformed
    else skipSpace true rest
  | false, c :: rest =>
    if isSpace c then skipSpace false rest
    else if c = '#' then skipSpace true rest
    else .ok (c :: rest)

/-- The value of a hexadecimal digit. -/
def hexDigit? (c : Char) : Option Nat :=
  if '0' ≤ c && c ≤ '9' then some (c.toNat - '0'.toNat)
  else if 'a' ≤ c && c ≤ 'f' then some (c.toNat - 'a'.toNat + 10)
  else if 'A' ≤ c && c ≤ 'F' then some (c.toNat - 'A'.toNat + 10)
  else none

/-- The number with the given digits in a base, most significant first. -/
def ofDigits (base : Nat) (digits : List Nat) : Nat :=
  digits.foldl (fun n d => base * n + d) 0

end Toml

end Conformance
