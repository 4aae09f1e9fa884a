/-
# Conformance.Proofs.Conjunction — a literal of several values is each of them.

A literal as source is compared value by value with a literal, an enumeration or a union, and the
tests of one value do not look at the others.  Only one branch of its rule counts the values: a
literal of a single value also conforms to the primitive kind of that value.  So against every
target but the four kinds that take a value in this way, a literal of several values conforms
exactly when the literal of each of them does (`conforms_literal_iff_forall`).

Wrappers around the target come off first, from whatever literal is compared.  Both limits are felt
alike by all of them.  Every literal takes the same levels on its way in and is decided on the spot at
the node inside; and there is room to ask about a literal exactly when there is room to ask about each
of its values (`space_iff_forall`).
-/
import Conformance.Proofs.Enumeration

namespace Conformance

namespace Schema

/-- **`innermost s`** — what is left when all wrappers are taken off. -/
def innermost : Schema → Schema
  | .wrap _ _ inner => innermost inner
  | s => s

theorem eq_wrap_or_innermost_eq (s : Schema) :
    (∃ i w inner, s = .wrap i w inner) ∨ s.innermost = s := by
  cases s with
  | wrap i w inner => exact .inl ⟨i, w, inner, rfl⟩
  | _ => exact .inr rfl

/-- No wrapper is left. -/
theorem innermost_kind?_ne (s : Schema) (w : Wrapper) : s.innermost.kind? ≠ some w.kind := by
  fun_induction innermost s with
  | case1 i v inner ih => exact ih
  | case2 s unwrapped =>
    intro kind
    obtain ⟨inner, inside⟩ := Option.isSome_iff_exists.mp (Rule.inside?_isSome_iff.mpr kind)
    obtain ⟨i, rfl⟩ := eq_wrap_of_inside? inside
    exact unwrapped i w inner rfl

/-- The kinds that take a single value. -/
def widened : List Kind := [.string, .number, .boolean, .bigint]

/-- **Values are tested one by one**, where no single value is widened to its kind. -/
theorem literalFits_iff_forall {values : List Value} {t : Schema} (nonempty : values ≠ [])
    (kinds : ∀ kind ∈ widened, t.kind? ≠ some kind) :
    literalFits values t = true ↔ ∀ v ∈ values, literalFits [v] t = true := by
  obtain ⟨first, member⟩ := List.exists_mem_of_ne_nil values nonempty
  -- Targets that take no literal at all.
  have refused (no : ∀ vs, vs ≠ [] → literalFits vs t = false) :
      literalFits values t = true ↔ ∀ v ∈ values, literalFits [v] t = true := by
    refine iff_of_false (by simp [no values nonempty]) fun all => ?_
    have one := all first member
    rw [no [first] (List.cons_ne_nil _ _)] at one
    cases one
  cases t with
  | literal i members => simp [literalFits, Value.allAmong]
  | enum i members => simp [literalFits, Value.allAmong]
  | union i options => simp [literalFits]
  | plain i sort =>
    refine refused fun vs listed => ?_
    have unfit (v : Value) : v.inPrimitive (some sort.kind) = false := by
      cases sort with
      | string | number | boolean | bigint => exact absurd rfl (kinds _ (by decide))
      | _ => rfl
    cases vs with
    | nil => exact absurd rfl listed
    | cons v rest => simp [literalFits, unfit]
  | bare | wrap | array | tuple | object | record | intersection | custom =>
    exact refused fun _ _ => rfl

end Schema

namespace Run

/-- A run that always answers says yes exactly when what it tells is so. -/
theorem Tells.outcome_eq_true_iff {x : Run Bool} {P : Prop} (h : Tells (fun _ => False) x P) :
    x.outcome = .ok true ↔ P := by
  rw [Tells] at h
  split at h
  · rename_i v answer
    rw [answer, Except.ok.injEq]
    exact h
  · exact h.elim

end Run

namespace Policy

open Schema

variable {p : Policy} {n room : Nat} {depth : Int} {i : Ident} {members : List (Ident × Value)}

theorem exceeded_ne_true (a b : Value) : (p.exceeded room a b).outcome ≠ .ok true := by
  unfold exceeded
  split
  · simp [Logged.quiet]
  · split <;> simp [Logged.quiet, Logged.note, Logged.bind_ok, Logged.pure_eq]

theorem check_ne_true_of_short {a b : Value} (short : room < p.callsFor a b) :
    (p.check (n + 1) room depth a b).outcome ≠ .ok true := by
  rw [check_of_short short]
  simp

/-- **There is room for a literal exactly when there is for each of its values.** -/
theorem space_iff_forall {b : Schema} (nonempty : members ≠ [])
    (fresh : ∀ j ∈ i :: members.map Prod.fst, j.same b.id = false) :
    p.callsFor (literal i (members.map Prod.snd)).value b.value ≤ room ↔
      ∀ m ∈ members, p.callsFor (literal m.1 [m.2]).value b.value ≤ room := by
  simp only [List.forall_mem_cons, List.forall_mem_map] at fresh
  obtain ⟨apart, fresh⟩ := fresh
  obtain ⟨first, member⟩ := List.exists_mem_of_ne_nil members nonempty
  have one {j : Ident} {values : List Value} (apart : j.same b.id = false) :
      p.callsFor (literal j values).value b.value ≤ room ↔
        (p.stack.pair false (some .literal) b.kind? ≤ room ∧
          ∀ v ∈ values, p.stack.listed v b.value ≤ room) ∧
        (p.trace = true → p.stack.record ≤ room) := by
    have differ : (literal j values).value.same b.value = false := (same_value _ _).trans apart
    rw [callsFor_le_iff, Stack.calls_le_iff differ, listing_value, kind?_value, kind?_value]
    rfl
  rw [one apart, List.forall_mem_map]
  constructor
  · rintro ⟨⟨pair, each⟩, reported⟩ m hm
    exact (one (fresh m hm)).mpr ⟨⟨pair, List.forall_mem_singleton.mpr (each m hm)⟩, reported⟩
  · intro all
    obtain ⟨⟨pair, -⟩, reported⟩ := (one (fresh first member)).mp (all first member)
    refine ⟨⟨pair, fun m hm => ?_⟩, reported⟩
    exact ((one (fresh m hm)).mp (all m hm)).1.2 m.2 (List.mem_singleton_self _)

/-- A literal is decided on the spot, by the tests of its values. -/
theorem outcome_check_literal {t : Schema} {values : List Value}
    (unwrapped : ∀ w : Wrapper, t.kind? ≠ some w.kind) (other : t.isTop = false)
    (listed : values ≠ []) (apart : i.same t.id = false)
    (space : p.callsFor (literal i values).value t.value ≤ room) :
    (p.check (n + 1) room depth (literal i values).value t.value).outcome = .ok true ↔
      literalFits values t = true := by
  have chosen : (literal i values).rule t = .literalSource :=
    rule_of_values unwrapped other apart (by simp [kind?]) fun h => by cases h
  obtain ⟨y, decides, tells⟩ := Rule.literalSource_settles (P := Fits) (a := literal i values) rfl
  rw [check_outcome space (by rw [chosen]; exact decides)]
  have tells : Run.Tells (fun _ => False) y (literalFits values t = true) :=
    tells.congr (and_iff_right listed)
  exact tells.outcome_eq_true_iff

/-- A wrapper as target hands on a literal. -/
theorem outcome_check_literal_into_wrapper {j : Ident} {w : Wrapper} {values : List Value}
    {inner : Schema} (apart : i.same j = false)
    (space : p.callsFor (literal i values).value (wrap j w inner).value ≤ room) :
    (p.check (n + 1) room depth (literal i values).value (wrap j w inner).value).outcome =
      (p.check n (room - w.targetRule.held) (depth + 1) (literal i values).value
        inner.value).outcome := by
  refine outcome_check_into_wrapper (a := literal i values) ?_ ?_ ?_ apart space
  · simp [kind?]
  · simp [isBottom, kind?]
  · cases w <;> simp [kind?, Wrapper.absence, Plain.kind]

/-- **A literal is compared like each of its values**, with the same levels and the same room. -/
theorem outcome_check_literal_iff_forall {b : Schema} (nonempty : members ≠ [])
    (kinds : ∀ kind ∈ widened, b.innermost.kind? ≠ some kind)
    (fresh : ∀ j ∈ i :: members.map Prod.fst, Everywhere (fun s => j.same s.id = false) b) :
    (p.check n room depth (literal i (members.map Prod.snd)).value b.value).outcome = .ok true ↔
      ∀ m ∈ members,
        (p.check n room depth (literal m.1 [m.2]).value b.value).outcome = .ok true := by
  obtain ⟨first, member⟩ := List.exists_mem_of_ne_nil members nonempty
  -- By induction on the wrappers, from the outside; levels or calls run out for all literals.
  induction n generalizing room depth b with
  | zero =>
    refine iff_of_false (exceeded_ne_true _ _) fun all => ?_
    exact exceeded_ne_true _ _ (all first member)
  | succ n ih =>
    have apart (k : Ident) (hk : k ∈ i :: members.map Prod.fst) : k.same b.id = false :=
      (fresh k hk).here
    have mem {m : Ident × Value} (hm : m ∈ members) : m.1 ∈ i :: members.map Prod.fst :=
      .tail _ (List.mem_map_of_mem hm)
    have room_iff := @space_iff_forall p room i members b nonempty apart
    by_cases space : p.callsFor (literal i (members.map Prod.snd)).value b.value ≤ room
    · have spaces := room_iff.mp space
      rcases eq_wrap_or_innermost_eq b with ⟨j, w, inner, rfl⟩ | bare
      · have apart (k : Ident) (hk : k ∈ i :: members.map Prod.fst) : k.same j = false := apart k hk
        have below := @ih (room - w.targetRule.held) (depth + 1) inner kinds
          fun k hk => (fresh k hk).child (.head _)
        rw [outcome_check_literal_into_wrapper (apart i (.head _)) space, below]
        refine forall₂_congr fun m hm => ?_
        rw [outcome_check_literal_into_wrapper (apart m.1 (mem hm)) (spaces m hm)]
      · cases top : b.isTop with
        | true =>
          refine iff_of_true (outcome_check_topBottom (.inl top) space) fun m hm => ?_
          exact outcome_check_topBottom (.inl top) (spaces m hm)
        | false =>
          have unwrapped (w : Wrapper) : b.kind? ≠ some w.kind := bare ▸ innermost_kind?_ne b w
          have listed : members.map Prod.snd ≠ [] := by simpa using nonempty
          rw [bare] at kinds
          rw [outcome_check_literal unwrapped top listed (apart i (.head _)) space,
            literalFits_iff_forall listed kinds, List.forall_mem_map]
          refine forall₂_congr fun m hm => ?_
          rw [outcome_check_literal unwrapped top (List.cons_ne_nil _ _) (apart m.1 (mem hm))
            (spaces m hm)]
    · refine iff_of_false (check_ne_true_of_short (Nat.lt_of_not_le space)) fun all => space ?_
      refine room_iff.mpr fun m hm => Nat.le_of_not_lt fun short => ?_
      exact check_ne_true_of_short short (all m hm)

/-- **A literal of several values is the conjunction of its values.**  The target is anything but a
string, number, boolean or big integer under any number of wrappers, the limit is any integer, and
the literals are not nodes of the target.  Then the literal of all values conforms exactly when the
literal of each value does. -/
theorem conforms_literal_iff_forall (stack : Stack) (i : Ident) (members : List (Ident × Value))
    (b : Schema) (deepest : Int) (trace : Bool) (nonempty : members ≠ [])
    (kinds : ∀ kind ∈ [Kind.string, .number, .boolean, .bigint], b.innermost.kind? ≠ some kind)
    (fresh : ∀ j ∈ i :: members.map Prod.fst, Everywhere (fun s => j.same s.id = false) b) :
    ((upTo stack deepest trace).conforms (literal i (members.map Prod.snd)).value b.value).outcome =
        .ok true ↔
      ∀ m ∈ members,
        ((upTo stack deepest trace).conforms (literal m.1 [m.2]).value b.value).outcome = .ok true := by
  simp only [conforms_eq_true_iff_check]
  exact outcome_check_literal_iff_forall nonempty kinds fresh

/-- A text, an integer and null, against a union of three sorts of options under two wrappers. -/
theorem three_values_conform :
    let members := [(Ident.made 8, Value.text "x"), (.made 9, .int 7), (.made 10, .null)]
    let t : Schema := .union (.made 2) [.plain (.made 3) .number, .literal (.made 4) [.null],
      .plain (.made 5) .string]
    let b : Schema := .wrap (.made 0) .optional (.wrap (.made 1) .nullable t)
    (∀ m ∈ members,
        ((upTo .standard 2 false).conforms (literal m.1 [m.2]).value b.value).outcome = .ok true) ∧
      ((upTo .standard 2 false).conforms (literal (.made 11) (members.map Prod.snd)).value b.value).outcome =
        .ok true := by
  intro members t b
  have each : ∀ m ∈ members,
      ((upTo .standard 2 false).conforms (literal m.1 [m.2]).value b.value).outcome = .ok true := by
    simp only [members, List.forall_mem_cons]
    exact ⟨rfl, rfl, rfl, List.forall_mem_nil _⟩
  refine ⟨each, (conforms_literal_iff_forall .standard (.made 11) members b 2 false ?_ ?_ ?_).mpr each⟩
  · simp [members]
  · decide
  · simp [members, b, t, Schema.id, Ident.same]

-- A single text is widened to its kind, and two texts are not.
example :
    let text : Schema := .plain (.made 0) .string
    let answer (values : List Value) :=
      ((upTo .standard 0 false).conforms (literal (.made 1) values).value text.value).outcome
    answer [.text "x"] = .ok true ∧ answer [.text "y"] = .ok true ∧
      answer [.text "x", .text "y"] = .ok false :=
  ⟨rfl, rfl, rfl⟩

end Policy

end Conformance
