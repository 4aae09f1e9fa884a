/-
# Conformance.Proofs.Fixed — nodes that store nothing which can change.

Mappings, lists and objects with attributes can change.  A part in the form in which a node keeps it
is none of them and holds none: sequences are copied into tuples, mappings into read-only ones, and
what is neither a node nor plain data is refused.  So this is true of every node that builders,
constructors, methods and wrappings give.
-/
import Conformance.Proofs.Making
import Conformance.Proofs.Schema

namespace Conformance

namespace Value

/-! ## What can change -/

/-- **`IsFixed`** — what a node stores cannot change, nor what stands in a stored tuple or read-only
mapping. -/
def IsFixed : Value → Prop
  | .tuple _ items => ∀ w ∈ items, w.isChangeable = false
  | .frozen entries => ∀ e ∈ entries, e.1.isChangeable = false ∧ e.2.isChangeable = false
  | v => v.isChangeable = false

/-- **`IsSettled`** — if it is a node, it has an identity, and everything it stores is fixed. -/
def IsSettled (v : Value) : Prop :=
  ∀ id model parts, v = .node id model parts → (∃ k, id = .made k) ∧ ∀ p ∈ parts, p.2.IsFixed

variable {v : Value}

theorem IsFixed.isChangeable (h : v.IsFixed) : v.isChangeable = false := by
  cases v with
  | tuple id items => rfl
  | frozen entries => rfl
  | _ => exact h

theorem IsNode.isFixed (h : v.IsNode) : v.IsFixed := by
  obtain ⟨id, model, parts, rfl⟩ := h
  rfl

theorem isChangeable_of_isLiteral (h : v.isLiteral = true) : v.isChangeable = false := by
  cases v with
  | list id items => cases h
  | dict id entries => cases h
  | lookalike id attributes => cases h
  | _ => rfl

theorem isFixed_of_isCallable (h : (v.same .null || v.isCallable) = true) : v.IsFixed := by
  cases v with
  | list id items => cases h
  | dict id entries => cases h
  | lookalike id attributes => cases h
  | frozen entries => cases h
  | tuple id items => cases items <;> cases h
  | _ => rfl

end Value

/-- A part in its form is fixed. -/
theorem Part.Form.isFixed {model : Model} {part : Part} {v : Value} (h : part.Form model v) :
    v.IsFixed := by
  cases part with
  | values =>
    obtain ⟨values, rfl, -, listed⟩ := h
    intro x hx
    have fit := listed x hx
    refine Value.isChangeable_of_isLiteral ?_
    split at fit
    · exact Value.isLiteral_of_isEnumerable fit.1
    · exact fit
  | items =>
    obtain ⟨nodes, rfl, all⟩ := h
    exact fun w hw => (all w hw).isFixed.isChangeable
  | options =>
    obtain ⟨nodes, rfl, -, all⟩ := h
    exact fun w hw => (all w hw).isFixed.isChangeable
  | shape =>
    obtain ⟨fields, rfl, -, all⟩ := h
    intro e he
    obtain ⟨⟨s, text⟩, node⟩ := all e he
    exact ⟨by rw [text]; rfl, node.isFixed.isChangeable⟩
  | label =>
    obtain ⟨s, rfl⟩ := h
    rfl
  | predicate => exact Value.isFixed_of_isCallable h
  | target =>
    refine Value.isFixed_of_isCallable ?_
    simp only [Form, Bool.or_eq_true, Value.isCallable] at h ⊢
    exact h.imp_right .inr
  | _ => exact Value.IsNode.isFixed h

/-! ## What is made -/

namespace Value

theorem IsFormed.isSettled {v : Value} (h : v.IsFormed) : v.IsSettled := by
  intro id model parts eq
  obtain ⟨made, formed⟩ := h id model parts eq
  refine ⟨made, fun p hp => ?_⟩
  obtain ⟨i, hi, rfl⟩ := List.mem_iff_getElem.mp hp
  exact (formed.get (by rw [formed.length_eq]; exact hi) hi).2.isFixed

/-- Nothing has to be known of what a node is made from. -/
theorem upheld_true : Upheld fun _ _ => True where
  mono _ _ := trivial
  contents _ _ _ := trivial
  simple _ _ := trivial
  changeable _ _ _ := trivial
  baseClass _ := trivial
  derived _ _ _ _ := trivial
  object _ _ _ := trivial
  node _ _ _ := trivial

end Value

/-- **`Records.isSettled`** — a node that was made, whatever it was made from, stores nothing that
can change. -/
theorem Build.Records.isSettled {x : Build Value} {v : Value} {n m : Nat}
    (h : Build.Records (fun _ => none) x (Value.Made fun _ _ => True)) (made : x n = .ok (v, m)) :
    v.IsSettled := by
  obtain ⟨l', -, -, -, formed⟩ := h n (fun _ _ card => by cases card) v m made
  exact formed.isSettled

end Conformance
