/-
# Conformance.Proofs.Robustness — clear values are compared without a fault.

Nothing is asked of the two values but that they are clear: what stands where a sequence is wanted
is one, or counts as none.  Parts may be missing, hold values that are no nodes, or be attributes of
an object that is no node itself.  A fault of the comparison would then be one of the comparison one
level down, so one fault is left (`eq_exhausted_of_fault`): calls run out.

A whole comparison answers even there.  A single rule does not (`rule_breaks_off`).
-/
import Conformance.Descriptor.Inspection
import Conformance.Proofs.Limits

namespace Conformance

/-! ## Accessors -/

namespace Value

end Value

namespace Inspection

open Value

end Inspection

/-! ## Comparisons -/

namespace Policy

variable {stack : Stack} {deepest depth : Int} {trace : Bool} {a b : Value} {r : Rule}

/-- A whole comparison of clear values answers, also where it is given up. -/
theorem conforms_answers_of_clear (clear : Rule.BothClear a b) :
    ∃ v, ((upTo stack deepest trace).conforms a b).outcome = .ok v := by
  by_cases overflow : (upTo stack deepest trace).Overflows a b
  · exact ⟨false, conforms_outcome_of_overflows overflow⟩
  · rw [conforms_outcome_of_not_overflows overflow]
    cases outcome : ((upTo stack deepest trace).check ((upTo stack deepest trace).levelsFrom 0)
      stack.whole 0 a b).outcome with
    | ok v => exact ⟨v, outcome⟩
    | error e =>
      cases eq_exhausted_of_fault (.inl clear) outcome
      exact absurd outcome overflow

end Policy

/-! ## Rules that break off -/

namespace Schema

theorem isLegible_value (s : Schema) : s.value.IsLegible := by
  refine fun _ => ⟨?_, fun w stored => ?_⟩
  · rintro p w (rfl | rfl) stored
    · cases s <;> cases stored
      · exact .inr trivial
      · exact .inr trivial
    · cases s <;> cases stored
      exact .inr trivial
  · cases s <;> cases stored
    exact .inr trivial

/-- Descriptors are clear. -/
theorem isClear_value (s : Schema) : s.value.IsClear := by
  refine .intro (isLegible_value s) fun w hw => ?_
  rw [beneath_value] at hw
  obtain ⟨c, hc, rfl⟩ := List.mem_map.mp hw
  have lower := height_lt_of_mem hc
  exact isClear_value c
termination_by s.height

end Schema

namespace Policy

open Schema

end Policy

end Conformance
