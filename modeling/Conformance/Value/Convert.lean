/-
# Conformance.Value.Convert — integers, doubles and texts from values of other sorts.

A number becomes an integer by losing its fraction, and a text becomes a number by being read.  Each
conversion says why it is refused.
-/
import Conformance.Failure
import Conformance.Number.Read

namespace Conformance

namespace Value

/-- The integer part of a double. -/
def integerOfDouble (x : Binary64) : Except Failure Int :=
  if x.isNaN then .error (.broken .notNumber)
  else if x.isFinite then .ok x.truncate
  else .error (.broken .infinite)

/-- The integer that a text spells. -/
def integerOfText (s : String) : Except Failure Int :=
  match Text.readInteger s with
  | .ok n => .ok n
  | .error .malformed => .error (.notInteger s)
  | .error (.tooLong digits) => .error (.longInteger digits)

/-- **`toInteger`** — the integer that a value amounts to. -/
def toInteger (v : Value) : Except Failure Int :=
  match v.integer?, v.double?, v.text? with
  | some n, _, _ => .ok n
  | none, some x, _ => integerOfDouble x
  | none, none, some s => integerOfText s
  | none, none, none => .error (.integerWanted v.sortName)

/-- The double nearest to an integer. -/
def doubleOfInteger (n : Int) : Except Failure Binary64 :=
  match Binary64.ofInt? n with
  | some x => .ok x
  | none => .error .beyondDoubles

/-- The double that a text spells. -/
def doubleOfText (s : String) : Except Failure Binary64 :=
  match Binary64.read? s with
  | some x => .ok x
  | none => .error (.notDouble s)

/-- **`toDouble`** — the double that a value amounts to. -/
def toDouble (v : Value) : Except Failure Binary64 :=
  match v.integer?, v.double?, v.text? with
  | some n, _, _ => doubleOfInteger n
  | none, some x, _ => .ok x
  | none, none, some s => doubleOfText s
  | none, none, none => .error (.doubleWanted v.sortName)

/-- **`toText`** — the text that a value stands for. -/
def toText (v : Value) : Except Failure String :=
  match v.display? with
  | some s => .ok s
  | none => .error (.broken .unwritable)

end Value

end Conformance
