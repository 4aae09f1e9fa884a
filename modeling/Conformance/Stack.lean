/-
# Conformance.Stack — the calls that can be held at once.

A comparison goes down by calls that are held until it comes back up, and only so many can be held.
How many there are, and what takes how many of them, is no matter of the comparison itself: it
depends on where the comparison is made and on what carries it out.  A `Stack` is these numbers, and
what is said of comparisons is said for every stack.

A rule holds calls while a pair one level down is compared (`Rule.held`).  Beside that, to ask the
rules about a pair takes calls for a moment: some that go by the kinds of the two nodes, and some for
every value of a literal or an enumeration that is looked for in the target, where equality may have
to look into collections.  A record takes calls as well.
-/
import Conformance.Descriptor.Inspect
import Conformance.Rule

namespace Conformance

/-- **`Stack`** — how many calls can be held, and what takes how many. -/
structure Stack where
  /-- The calls that can be held when a comparison begins. -/
  whole : Nat
  /-- The calls that it takes to ask the rules about one node, or about two of such kinds. -/
  pair : Bool → Option Kind → Option Kind → Nat
  /-- The calls that it takes to look for a value in a target. -/
  listed : Value → Value → Nat
  /-- The calls that it takes to make a record. -/
  record : Nat
  /-- What takes most of them, as long as only literal values are looked for. -/
  most : Nat
  /-- One node is seen to be one at once. -/
  same_le : ∀ k l, pair true k l ≤ pair false k l
  pair_le : ∀ same k l, pair same k l ≤ most
  listed_le : ∀ v target, v.isLiteral = true → listed v target ≤ most
  record_le : record ≤ most
  /-- There is room for two levels. -/
  ample : 5 * 2 + most ≤ whole

/-- The calls that a rule holds while a pair one level down is compared: its own, the step down and the
comparison; going through a sequence takes two more. -/
def Rule.held : Rule → Nat
  | .arrayToUnion | .tuplePair | .unionSource | .unionTarget => 5
  | _ => 3

namespace Stack

/-- The calls that it takes to look for values in a target, one after the other. -/
def looking (s : Stack) (target : Value) : List Value → Nat
  | [] => 0
  | v :: rest => max (s.listed v target) (s.looking target rest)

/-- **`calls`** — the calls that it takes to ask the rules about a pair. -/
def calls (s : Stack) (a b : Value) : Nat :=
  if a.same b then s.pair true a.kind? b.kind?
  else max (s.pair false a.kind? b.kind?) (s.looking b a.listing)

/-! ## The usual stack -/

/-- The calls that it usually takes to ask about nodes of such kinds. -/
def usualPair : Bool → Option Kind → Option Kind → Nat
  | true, _, _ => 2
  | false, some .object, some .object => 8
  | false, some .literal, _ | false, some .enum, _ => 6
  | false, _, _ => 5

/-- The calls that it usually takes to look for a value: to go through the values of a literal or an
enumeration, or the options of a union, and into collections as far as both sides have them. -/
def usualListed (v target : Value) : Nat :=
  let deep := min v.nesting (Value.nestingItems target.offered)
  match target.kind? with
  | some .literal | some .enum => 9 + deep
  | some .union => (if target.offered.isEmpty then 10 else 12) + deep
  | _ => 0

/-- The stack of a comparison that is made under the usual limit of a thousand calls. -/
def standard : Stack where
  whole := 985
  pair := usualPair
  listed := usualListed
  record := 9
  most := 12
  same_le k l := by
    show 2 ≤ usualPair false k l
    unfold usualPair
    split <;> simp_all
  pair_le same k l := by
    unfold usualPair
    split <;> decide
  listed_le v target literal := by
    simp only [usualListed, Value.nesting_of_isLiteral literal, Nat.zero_min]
    split
    · decide
    · decide
    · split <;> decide
    · decide
  record_le := by decide
  ample := by decide

end Stack

end Conformance
