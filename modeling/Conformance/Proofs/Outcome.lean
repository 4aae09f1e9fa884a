/-
# Conformance.Proofs.Outcome — what computations give, if they give anything.

`Gives x P` says that the result of a computation has a property wherever there is a result.  It
passes through sequencing, so a function is treated once, for all its callers.
-/
import Conformance.Descriptor.Build

namespace Conformance

/-- **`Gives x P`** — the result has the property, unless there is none. -/
def Gives {ε α : Type} (x : Except ε α) (P : α → Prop) : Prop := ∀ a, x = .ok a → P a

/-- What is left of an outcome when its error is forgotten. -/
theorem toOption_eq_some_iff {ε α : Type} {x : Except ε α} {a : α} :
    x.toOption = some a ↔ x = .ok a := by
  cases x <;> simp [Except.toOption]

namespace Gives

variable {ε ε' α β : Type} {P : α → Prop} {Q : β → Prop} {x : Except ε α}

theorem ok {a : α} (h : P a) : Gives (.ok a : Except ε α) P := by
  rintro b ⟨⟩
  exact h

theorem error {e : ε} : Gives (.error e : Except ε α) P := by
  rintro b ⟨⟩

theorem bind {f : α → Except ε β} (hx : Gives x P) (hf : ∀ a, P a → Gives (f a) Q) :
    Gives (x >>= f) Q := by
  cases x with
  | ok a => exact hf a (hx a rfl)
  | error e => exact error

theorem map {f : α → β} (hx : Gives x P) (hf : ∀ a, P a → Q (f a)) : Gives (x.map f) Q := by
  cases x with
  | ok a => exact ok (hf a (hx a rfl))
  | error e => exact error

theorem mapError {f : ε → ε'} (hx : Gives x P) : Gives (x.mapError f) P := by
  cases x with
  | ok a => exact ok (hx a rfl)
  | error e => exact error

/-- Nothing is asked of the result. -/
theorem any : Gives x fun _ => True := fun _ _ => trivial

section Checked

variable {c : Checked α} {d : Checked β} {cs : Checked (List α)}

theorem and (hc : Gives c P) (hd : Gives d Q) : Gives (c.and d) fun p => P p.1 ∧ Q p.2 := by
  cases c with
  | ok a =>
    cases d with
    | ok b => exact ok ⟨hc a rfl, hd b rfl⟩
    | error is => exact error
  | error is => cases d <;> exact error

theorem cons {R S : List α → Prop} (hc : Gives c P) (hcs : Gives cs R)
    (step : ∀ a as, P a → R as → S (a :: as)) : Gives (c.cons cs) S :=
  (hc.and hcs).map fun p hp => step p.1 p.2 hp.1 hp.2

theorem within (step : Place) (hc : Gives c P) : Gives (c.within step) P := hc.mapError

end Checked

end Gives

namespace Build

/-- What a computation has made is there for the next one. -/
theorem bind_eq_of_ok {α β : Type} {x : Build α} {f : α → Build β} {next later : Nat} {a : α}
    (made : x next = .ok (a, later)) : (x >>= f) next = f a later := by
  show (x next >>= fun p => f p.1 p.2) = f a later
  rw [made]
  rfl

/-- Two computations in a row give a result if the first gives one, and the second from there. -/
theorem bind_eq_ok {α β : Type} {x : Build α} {f : α → Build β} {next last : Nat} {b : β} :
    (x >>= f) next = .ok (b, last) ↔
      ∃ a later, x next = .ok (a, later) ∧ f a later = .ok (b, last) := by
  constructor
  · intro made
    cases first : x next with
    | ok r => exact ⟨r.1, r.2, rfl, (bind_eq_of_ok first).symm.trans made⟩
    | error failure =>
      have broken : (x next >>= fun r => f r.1 r.2) = .ok (b, last) := made
      rw [first] at broken
      cases broken
  · rintro ⟨a, later, first, second⟩
    rw [bind_eq_of_ok first, second]

theorem ofExcept_eq_ok {α : Type} {y : Except Failure α} {next last : Nat} {a : α} :
    ofExcept y next = .ok (a, last) ↔ y = .ok a ∧ next = last := by
  cases y <;> simp [ofExcept, Except.map]

end Build

end Conformance
