/-
# Conformance.Run — answers with the records made on the way.

A logged computation is a list of records together with an answer or the error that broke it off.
Records made before an error stay.  To make a record is one thing and to write it another: a
computation goes on whether its records can be written or not.
-/
import Conformance.Descriptor.Inspect
import Conformance.Record

namespace Conformance

/-- **`Logged`** — the records of a computation, in order, and how it ended. -/
structure Logged (ε α : Type) where
  records : List Record
  outcome : Except ε α

namespace Logged

variable {ε α β : Type}

/-- Go on with an answer; an error ends the computation. -/
def andThen (x : Logged ε α) (f : α → Logged ε β) : Logged ε β :=
  match x.outcome with
  | .ok a => ⟨x.records ++ (f a).records, (f a).outcome⟩
  | .error e => ⟨x.records, .error e⟩

instance : Monad (Logged ε) where
  pure a := ⟨[], .ok a⟩
  bind := andThen

theorem pure_eq (a : α) : (pure a : Logged ε α) = ⟨[], .ok a⟩ := rfl

theorem bind_ok (rs : List Record) (a : α) (f : α → Logged ε β) :
    (⟨rs, .ok a⟩ : Logged ε α) >>= f = ⟨rs ++ (f a).records, (f a).outcome⟩ := rfl

theorem bind_error (rs : List Record) (e : ε) (f : α → Logged ε β) :
    (⟨rs, .error e⟩ : Logged ε α) >>= f = ⟨rs, .error e⟩ := rfl

instance : LawfulMonad (Logged ε) := LawfulMonad.mk' (Logged ε)
  (by
    rintro α ⟨rs, e | a⟩
    · rfl
    · show (⟨rs ++ [], _⟩ : Logged ε α) = _
      simp)
  (by intro α β a f; rfl)
  (by
    rintro α β γ ⟨rs, e | a⟩ f g
    · rfl
    · show andThen ⟨rs ++ (f a).records, (f a).outcome⟩ g = ⟨rs ++ _, _⟩
      cases h : (f a).outcome <;> simp [andThen, Bind.bind, h])

/-- Report records. -/
def note (records : List Record) : Logged ε Unit := ⟨records, .ok ()⟩

/-- A computation that reports nothing. -/
def quiet (x : Except ε α) : Logged ε α := ⟨[], x⟩

/-- The records before the first that cannot be written, and what is wrong with that one. -/
def writable : List Record → List Record × Option Fault
  | [] => ([], none)
  | r :: rest =>
    match r.message with
    | .error fault => ([], some fault)
    | .ok _ =>
      let after := writable rest
      (r :: after.1, after.2)

/-- **`written`** — the computation with its records written as they are made, where the first that
cannot be written breaks it off. -/
def written (broken : Fault → ε) (x : Logged ε α) : Logged ε α :=
  match writable x.records with
  | (_, none) => x
  | (records, some fault) => ⟨records, .error (broken fault)⟩

end Logged

/-- **`Run`** — a logged comparison, which only a fault can break off. -/
abbrev Run := Logged Fault

namespace Run

/-- Both must hold; the second is asked only if the first does. -/
def both (x y : Run Bool) : Run Bool := do
  if ← x then y else pure false

/-- One must hold; the second is asked only if the first does not. -/
def either (x y : Run Bool) : Run Bool := do
  if ← x then pure true else y

end Run

end Conformance
