/-
# Conformance.Signature — how many values something takes.

What can be called takes values by position: some that it needs, which have names, and perhaps more
that it can do without.
-/

namespace Conformance

/-- **`Signature`** — the name of what is called, the names of the values it needs, and how many more it
takes at most; no number means any number. -/
structure Signature where
  name : String
  needed : List String
  further : Option Nat
  deriving DecidableEq, Repr

/-- Why a number of values does not do. -/
inductive CountFault where
  /-- Values with these names are missing. -/
  | missing (callee : String) (names : List String)
  /-- Between `least` and `most` values are taken, and `given` were given. -/
  | tooMany (callee : String) (least most given : Nat)
  deriving DecidableEq, Repr

namespace CountFault

/-- Names as an enumeration in a sentence. -/
def listed : List String → String
  | [] => ""
  | [a] => a
  | [a, b] => a ++ " and " ++ b
  | names => ", ".intercalate names.dropLast ++ ", and " ++ names.getLastD ""

/-- The ending of a word that stands for so many things. -/
def plural (n : Nat) : String := if n = 1 then "" else "s"

/-- The wording of a fault. -/
def message : CountFault → String
  | .missing callee names =>
    callee ++ "() missing " ++ toString names.length ++ " required positional argument" ++
      plural names.length ++ ": " ++ listed (names.map fun name => "'" ++ name ++ "'")
  | .tooMany callee least most given =>
    let taken :=
      if least = most then toString most ++ " positional argument" ++ plural most
      else "from " ++ toString least ++ " to " ++ toString most ++ " positional arguments"
    callee ++ "() takes " ++ taken ++ " but " ++ toString given ++
      (if given = 1 then " was" else " were") ++ " given"

end CountFault

namespace Signature

/-- **`assertCount`** — refuse a number of values that does not do. -/
def assertCount (s : Signature) (given : Nat) : Except CountFault Unit :=
  let least := s.needed.length
  if given < least then .error (.missing s.name (s.needed.drop given))
  else
    match s.further with
    | none => .ok ()
    | some further =>
      if least + further < given then .error (.tooMany s.name least (least + further) given)
      else .ok ()

end Signature

end Conformance
