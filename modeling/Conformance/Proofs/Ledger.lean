/-
# Conformance.Proofs.Ledger — what is on record about the objects that were made.

A value is held as a tree, and an object that is shared stands in it more than once.  A ledger has a
card for each identity, with what never changes about the object: of a node its model and which
objects its parts are, of a mapping, a list or an object with attributes only which one it is.  A
value is filed (`Value.Filed`) if all that stands in it, at any depth, is as the cards say.

A computation gives new objects new identities and passes others on as they are.  So it adds cards
and changes none, and what it gives is seen under the ledger at its end (`Build.Records`).
-/
import Conformance.Proofs.Contents

namespace Conformance

namespace Value

/-! ## Cards -/

/-- The value as one refers to it: plain data as it is, and an object without what it holds. -/
def reference : Value → Value
  | .list id _ => .list id []
  | .tuple id _ => .tuple id []
  | .dict id _ => .dict id []
  | .frozen _ => .frozen []
  | .classTest id _ => .classTest id .null
  | .enumeration id name _ => .enumeration id name []
  | .member owner enumName name _ => .member owner enumName name .null
  | .lookalike id _ => .lookalike id []
  | .node id model _ => .node id model []
  | v => v

/-- The value as a node stores it: a tuple or a read-only mapping of references, or a reference. -/
def outline : Value → Value
  | .tuple id items => .tuple id (items.map reference)
  | .frozen entries => .frozen (entries.map fun e => (e.1.reference, e.2.reference))
  | v => v.reference

/-- **`outlines`** — what a node stores, part by part. -/
def outlines (parts : List (Part × Value)) : List (Part × Value) :=
  parts.map fun p => (p.1, p.2.outline)

/-- **`card`** — what is on record about a value: of a node what it stores, of others which they
are. -/
def card : Value → Value
  | .node id model parts => .node id model (outlines parts)
  | v => v.reference

/-- The identity under which a node or a value that can change is on record. -/
def key? : Value → Option Ident
  | .list id _ | .dict id _ | .lookalike id _ | .node id _ _ => some id
  | _ => none

/-- The value can change: it is a list, a mapping or an object with attributes. -/
def isChangeable : Value → Bool
  | .list _ _ | .dict _ _ | .lookalike _ _ => true
  | _ => false

end Value

/-- **`Ledger`** — the cards, by the number under which an object was made. -/
abbrev Ledger := Nat → Option Value

namespace Ledger

/-- There are cards only for what has been made so far. -/
def Below (l : Ledger) (next : Nat) : Prop := ∀ k card, l k = some card → k < next

/-- The second ledger has all the cards of the first. -/
def Grows (l l' : Ledger) : Prop := ∀ k card, l k = some card → l' k = some card

/-- The ledger with one more card. -/
def add (l : Ledger) (n : Nat) (card : Value) : Ledger := fun k => if k = n then some card else l k

variable {l l' l'' : Ledger} {n : Nat}

theorem Below.add (h : l.Below n) (card : Value) : (l.add n card).Below (n + 1) := by
  intro k c hk
  simp only [Ledger.add] at hk
  split at hk
  case isTrue eq => omega
  case isFalse => exact Nat.lt_succ_of_lt (h k c hk)

theorem Grows.refl (l : Ledger) : l.Grows l := fun _ _ h => h

theorem Grows.trans (h : l.Grows l') (h' : l'.Grows l'') : l.Grows l'' := fun k card hk =>
  h' k card (h k card hk)

/-- A number that is still free gets a card. -/
theorem Below.grows_add (h : l.Below n) (card : Value) : l.Grows (l.add n card) := by
  intro k c hk
  have old : k ≠ n := Nat.ne_of_lt (h k c hk)
  simpa only [Ledger.add, if_neg old] using hk

theorem add_self (l : Ledger) (n : Nat) (card : Value) : l.add n card n = some card := by
  simp [add]

end Ledger

namespace Value

/-- The value itself is as its card says. -/
def Recorded (l : Ledger) (v : Value) : Prop := ∀ k, v.key? = some (.made k) → l k = some v.card

/-- **`Filed l v`** — the value and everything in it is as the cards say. -/
def Filed (l : Ledger) (v : Value) : Prop := Throughout contents (Recorded l) v

section Filed

variable {l l' : Ledger} {v : Value} {items : List Value} {entries : Entries}

theorem Filed.mono (h : v.Filed l) (grows : l.Grows l') : v.Filed l' :=
  Throughout.mono h fun _ recorded k key => grows k _ (recorded k key)

/-- Nothing is on record about a value without a key. -/
theorem filed_of_key_eq_none (key : v.key? = none) (h : ∀ w ∈ v.contents, w.Filed l) :
    v.Filed l := by
  refine .intro (fun k made => ?_) h
  rw [key] at made
  cases made

theorem filed_tuple {id : Ident} (h : ∀ v ∈ items, v.Filed l) : (Value.tuple id items).Filed l :=
  filed_of_key_eq_none rfl h

theorem filed_frozen (h : ∀ e ∈ entries, e.1.Filed l ∧ e.2.Filed l) :
    (Value.frozen entries).Filed l :=
  filed_of_key_eq_none rfl (forall_mem_keys_append_values.mpr h)

theorem filed_classTest {id : Ident} (h : v.Filed l) : (Value.classTest id v).Filed l :=
  filed_of_key_eq_none rfl (List.forall_mem_singleton.mpr h)

end Filed

end Value

/-! ## Computations -/

namespace Build

/-- **`Records l x P`** — begun with a ledger that has cards for what was made before, the
computation ends with a ledger that has these cards and maybe more, and under it the result has the
property, unless there is none. -/
def Records {α : Type} (l : Ledger) (x : Build α) (P : Ledger → α → Prop) : Prop :=
  ∀ n, l.Below n → ∀ a m, x n = .ok (a, m) → ∃ l', l.Grows l' ∧ l'.Below m ∧ P l' a

namespace Records

variable {α β : Type} {l : Ledger} {x : Build α} {P Q : Ledger → α → Prop} {R : Ledger → β → Prop}

theorem pure {a : α} (h : P l a) : Records l (pure a) P := by
  rintro n below _ _ ⟨⟩
  exact ⟨l, .refl l, below, h⟩

theorem throw (failure : Failure) : Records l (throw failure : Build α) P := by
  rintro n below a m ⟨⟩

theorem ofExcept {y : Except Failure α} (h : Gives y (P l)) : Records l (ofExcept y) P := by
  intro n below a m made
  cases y with
  | ok b =>
    cases made
    exact ⟨l, .refl l, below, h _ rfl⟩
  | error failure => cases made

theorem bind {f : α → Build β} (hx : Records l x P)
    (hf : ∀ l' a, l.Grows l' → P l' a → Records l' (f a) R) : Records l (x >>= f) R := by
  intro n below b k made
  obtain ⟨a, m, first, second⟩ := bind_eq_ok.mp made
  obtain ⟨l', grows, below', ha⟩ := hx n below a m first
  obtain ⟨l'', grows', below'', hb⟩ := hf l' a grows ha m below' b k second
  exact ⟨l'', grows.trans grows', below'', hb⟩

/-- What makes nothing leaves the ledger as it is. -/
theorem read {p : α → Prop} {y : Except Failure α} {f : α → Build β} (hy : Gives y p)
    (hf : ∀ a, p a → Records l (f a) R) : Records l (Build.ofExcept y >>= f) R := by
  cases y with
  | ok a => exact hf a (hy a rfl)
  | error failure => exact throw failure

theorem mono (hx : Records l x P) (h : ∀ l' a, l.Grows l' → P l' a → Q l' a) : Records l x Q := by
  intro n below a m made
  obtain ⟨l', grows, below', ha⟩ := hx n below a m made
  exact ⟨l', grows, below', h l' a grows ha⟩

/-- A new number gets a card of any kind. -/
theorem fresh (card : Nat → Value) :
    Records l fresh fun l' id => ∃ n, id = .made n ∧ l' n = some (card n) := by
  rintro n below _ _ ⟨⟩
  exact ⟨l.add n (card n), below.grows_add _, below.add _, n, rfl, l.add_self n _⟩

/-- After a failure nothing has been made. -/
theorem attempt (hx : Records l x P) : Records l (attempt x) fun l' r => Gives r (P l') := by
  intro n below r m made
  unfold Build.attempt at made
  split at made
  case h_1 a k first =>
    cases made
    obtain ⟨l', grows, below', ha⟩ := hx n below a m first
    exact ⟨l', grows, below', .ok ha⟩
  case h_2 =>
    cases made
    exact ⟨l, .refl l, below, .error⟩

end Records

end Build

end Conformance
