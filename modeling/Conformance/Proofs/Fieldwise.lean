/-
# Conformance.Proofs.Fieldwise — objects are compared field by field.

The rule for two objects goes through the fields of the target and stops at the first that does not
conform.  Nothing is carried from one field to the next: what is asked about a field depends on the
type under its name in the source and on nothing else there (`fieldConforms_eq`).  So the answer for
two objects is that of all pairs of objects with one field each (`conforms_iff_fieldwise`), also as
far as limits go: every field is compared with the same levels and the same room.

One node is not looked into, but then its fields are found again at their own nodes.
-/
import Conformance.Proofs.Context

namespace Conformance

/-! ## Runs that answer yes -/

namespace Run

theorem outcome_both_eq_true {x y : Run Bool} :
    (both x y).outcome = .ok true ↔ x.outcome = .ok true ∧ y.outcome = .ok true := by
  rw [outcome_both]
  cases x.outcome with
  | error e => simp [bind, Except.bind]
  | ok v => cases v <;> simp [bind, Except.bind]

/-- All answer yes exactly when each one does. -/
theorem outcome_allM_eq_true {β : Type} {f : β → Run Bool} {l : List β} :
    (l.allM f).outcome = .ok true ↔ ∀ b ∈ l, (f b).outcome = .ok true := by
  induction l with
  | nil => exact iff_of_true rfl (by simp)
  | cons b rest ih =>
    have split : (b :: rest).allM f = both (f b) (rest.allM f) := List.allM_cons
    rw [split, outcome_both_eq_true, ih, List.forall_mem_cons]

end Run

namespace Rule

open Schema

/-- A field is compared with what stands under its name. -/
theorem fieldConforms_eq {sub : Compare} {fields fields' : List (String × Schema)}
    {f : String × Schema} (alike : fields.lookup f.1 = fields'.lookup f.1) :
    fieldConforms sub (fields.map entry) (entry f) =
      fieldConforms sub (fields'.map entry) (entry f) := by
  simp only [fieldConforms, entry, find?_entries, alike]

end Rule

/-! ## Two objects -/

namespace Policy

open Schema Rule

variable {p : Policy} {n room : Nat} {depth : Int} {i j : Ident}
  {fields more : List (String × Schema)}

/-- Two objects conform exactly when every field of the target finds what it asks for. -/
theorem outcome_check_objects (apart : i.same j = false) (space : p.stack.most ≤ room) :
    (p.check (n + 1) room depth (object i fields).value (object j more).value).outcome = .ok true ↔
      ∀ f ∈ more, (fieldConforms (p.check n (room - Rule.objectPair.held) (depth + 1))
        (fields.map entry) (entry f)).outcome = .ok true := by
  have chosen : (object i fields).rule (object j more) = .objectPair := by
    rw [Schema.rule, show (object i fields).id.same (object j more).id = false from apart]
    rfl
  have decides (sub : Compare) :
      Rule.decide sub (object i fields).value (object j more).value .objectPair =
        some <$> (more.map entry).allM (fieldConforms sub (fields.map entry)) := by
    rw [Rule.decide, objectPairOf, fields_value, fields_value]
    rfl
  rw [check_outcome (space_of_nothing rfl space) (by rw [chosen]; exact decides _),
    Run.outcome_allM_eq_true, List.forall_mem_map]

section Fields

variable {f : String × Schema} {sub : Compare}

theorem fieldConforms_of_missing (missing : fields.lookup f.1 = none) :
    fieldConforms sub (fields.map entry) (entry f) = pure f.2.omittable := by
  simp only [fieldConforms, entry, omittable_value, find?_entries, missing]
  rfl

/-- A field that is asked for is there, and may not be left out. -/
theorem required_of_fieldConforms
    (yes : (fieldConforms sub (fields.map entry) (entry f)).outcome = .ok true)
    (required : f.2.omittable = false) : ∃ s, (f.1, s) ∈ fields ∧ s.omittable = false := by
  cases found : fields.lookup f.1 with
  | none =>
    rw [fieldConforms_of_missing found, required] at yes
    cases yes
  | some s =>
    refine ⟨s, mem_of_lookup found, ?_⟩
    rw [fieldConforms_of_lookup found, required] at yes
    cases omits : s.omittable with
    | false => rfl
    | true =>
      rw [omits] at yes
      cases yes

end Fields

section Whole

variable {heap : Heap} {stack : Stack} {deepest : Int} {trace : Bool}

/-- What the rule for two objects asks about a field, at the outset. -/
def FieldPasses (stack : Stack) (deepest : Int) (trace : Bool) (fields : List (String × Schema))
    (f : String × Schema) : Prop :=
  (fieldConforms ((upTo stack deepest trace).check deepest.toNat
    (stack.whole - Rule.objectPair.held) 1) (fields.map entry) (entry f)).outcome = .ok true

theorem conforms_objects_iff (nonneg : 0 ≤ deepest) (apart : i.same j = false) :
    ((upTo stack deepest trace).conforms (object i fields).value (object j more).value).outcome =
        .ok true ↔ ∀ f ∈ more, FieldPasses stack deepest trace fields f := by
  have ample := stack.ample
  rw [conforms_eq_true_iff_check, levelsFrom_eq_succ nonneg]
  exact outcome_check_objects apart (by omega : stack.most ≤ stack.whole)

theorem outcome_check_self {s : Schema} (built : ∃ m, s.id = .made m)
    (space : p.stack.most ≤ room) :
    (p.check (n + 1) room depth s.value s.value).outcome = .ok true := by
  obtain ⟨m, hm⟩ := built
  have same : s.id.same s.id = true := Ident.same_iff.mpr ⟨m, hm, hm⟩
  exact outcome_check_same same (Nat.le_trans (callsFor_le_most_of_same (same_value s s ▸ same)) space)

/-- A node conforms to itself. -/
theorem conforms_self {s : Schema} (nonneg : 0 ≤ deepest) (wf : s.WellFormed) :
    ((upTo stack deepest trace).conforms s.value s.value).outcome = .ok true := by
  have ample := stack.ample
  rw [conforms_eq_true_iff_check, levelsFrom_eq_succ nonneg]
  exact outcome_check_self wf.here.1 (by omega : stack.most ≤ stack.whole)

/-- A field passes beside itself, where a level is left for it. -/
theorem fieldPasses_self {f : String × Schema} (deep : 1 ≤ deepest)
    (found : fields.lookup f.1 = some f.2) (built : ∃ m, f.2.present.id = .made m) :
    FieldPasses stack deepest trace fields f := by
  obtain ⟨n, levels⟩ : ∃ n, deepest.toNat = n + 1 := ⟨deepest.toNat - 1, by omega⟩
  have ample := stack.ample
  rw [FieldPasses, levels, Frame.fieldConforms_self found]
  exact outcome_check_self built (by omega : stack.most ≤ stack.whole - 3)

/-- One node has the fields that it asks for. -/
theorem conforms_objects_iff_of_livesIn (deep : 1 ≤ deepest)
    (wfB : (object j more).WellFormed) (livesA : (object i fields).LivesIn heap)
    (livesB : (object j more).LivesIn heap) :
    ((upTo stack deepest trace).conforms (object i fields).value (object j more).value).outcome =
        .ok true ↔ ∀ f ∈ more, FieldPasses stack deepest trace fields f := by
  cases same : i.same j with
  | false => exact conforms_objects_iff (by omega) same
  | true =>
    have one : object i fields = object j more := livesA.here.eq_of_same livesB.here same
    obtain ⟨rfl, rfl⟩ := Schema.object.inj one
    refine iff_of_true (conforms_self (by omega) wfB) fun f hf => ?_
    exact fieldPasses_self deep (lookup_of_mem wfB.here.2 hf)
      (wfB.child (List.mem_map_of_mem hf)).present.here.1

/-- A field of the source is all that is asked for under its name. -/
theorem fieldPasses_iff_alone {f : String × Schema} {s : Schema}
    (distinct : (fields.map Prod.fst).Nodup) (hs : (f.1, s) ∈ fields) :
    FieldPasses stack deepest trace fields f ↔ FieldPasses stack deepest trace [(f.1, s)] f := by
  have alike : fields.lookup f.1 = [(f.1, s)].lookup f.1 := by
    rw [lookup_of_mem distinct hs, List.lookup_cons_self]
  rw [FieldPasses, fieldConforms_eq alike, FieldPasses]

theorem fieldPasses_iff_missing {f : String × Schema} (missing : f.1 ∉ fields.map Prod.fst) :
    FieldPasses stack deepest trace fields f ↔ FieldPasses stack deepest trace [] f := by
  have alike : fields.lookup f.1 = List.lookup f.1 [] := by
    rw [List.lookup_nil, List.lookup_eq_none_iff]
    intro g hg
    have apart : f.1 ≠ g.1 := fun h => missing (h ▸ List.mem_map_of_mem hg)
    simpa using apart
  rw [FieldPasses, fieldConforms_eq alike, FieldPasses]

end Whole

/-- **Objects are compared field by field.**  An object conforms to another exactly when, for each
field of the target, the object with that field of the source alone conforms to the object with that
field of the target alone; where the source lacks the field, the empty object has to.  So a field
that the target asks for is there in the source, and may not be left out there. -/
theorem conforms_iff_fieldwise {heap : Heap} (stack : Stack) (deepest : Int) (trace : Bool)
    (deep : 1 ≤ deepest) (wfA : (object i fields).WellFormed) (wfB : (object j more).WellFormed)
    (livesA : (object i fields).LivesIn heap) (livesB : (object j more).LivesIn heap)
    (source target : String → Ident) (fresh : ∀ name, (source name).same (target name) = false) :
    (((upTo stack deepest trace).conforms (object i fields).value (object j more).value).outcome =
        .ok true ↔
      ∀ f ∈ more,
        (∀ s, (f.1, s) ∈ fields →
          ((upTo stack deepest trace).conforms (object (source f.1) [(f.1, s)]).value
            (object (target f.1) [f]).value).outcome = .ok true) ∧
        (f.1 ∉ fields.map Prod.fst →
          ((upTo stack deepest trace).conforms (object (source f.1) []).value
            (object (target f.1) [f]).value).outcome = .ok true)) ∧
    (((upTo stack deepest trace).conforms (object i fields).value (object j more).value).outcome =
        .ok true →
      ∀ f ∈ more, f.2.omittable = false → ∃ s, (f.1, s) ∈ fields ∧ s.omittable = false) := by
  have whole : ((upTo stack deepest trace).conforms _ _).outcome = _ ↔ _ :=
    conforms_objects_iff_of_livesIn deep wfB livesA livesB
  have alone (name : String) (source' : List (String × Schema)) (f : String × Schema) :
      ((upTo stack deepest trace).conforms (object (source name) source').value
        (object (target name) [f]).value).outcome = .ok true ↔
      FieldPasses stack deepest trace source' f := by
    rw [conforms_objects_iff (by omega) (fresh name), List.forall_mem_singleton]
  refine ⟨whole.trans (forall₂_congr fun f _ => ?_), fun yes f hf required => ?_⟩
  · simp only [alone]
    constructor
    · intro passes
      exact ⟨fun s hs => (fieldPasses_iff_alone wfA.here.2 hs).mp passes,
        fun missing => (fieldPasses_iff_missing missing).mp passes⟩
    · rintro ⟨present, absent⟩
      by_cases named : f.1 ∈ fields.map Prod.fst
      · obtain ⟨⟨name, s⟩, hs, rfl⟩ := List.mem_map.mp named
        exact (fieldPasses_iff_alone wfA.here.2 hs).mpr (present s hs)
      · exact (fieldPasses_iff_missing named).mpr (absent named)
  · exact required_of_fieldConforms (whole.mp yes f hf) required

/-- A shared field, one that the source may not leave out and one that it lacks: the last of them
may be left out because a union lists undefined. -/
theorem fields_conform_alone :
    let shared : Schema := .array (.made 1) (.plain (.made 0) .string)
    let absent : Schema := .union (.made 4) [.plain (.made 2) .number, .plain (.made 3) .undefined]
    let a : Schema := .object (.made 7) [("x", shared), ("y", .literal (.made 5) [.text "v"])]
    let b : Schema := .object (.made 9) [
      ("y", .wrap (.made 8) .optional (.plain (.made 6) .string)), ("z", absent), ("x", shared)]
    a.WellFormed ∧ b.WellFormed ∧
      ((upTo .standard 1 false).conforms a.value b.value).outcome = .ok true ∧
      ((upTo .standard 1 false).conforms (object (.made 10) [("x", shared)]).value
        (object (.made 11) [("x", shared)]).value).outcome = .ok true ∧
      ((upTo .standard 1 false).conforms (object (.made 10) []).value
        (object (.made 11) [("z", absent)]).value).outcome = .ok true ∧
      ∃ s, ("x", s) ∈ [("x", shared), ("y", .literal (.made 5) [.text "v"])] ∧
        s.omittable = false := by
  intro shared absent a b
  have wfA : a.WellFormed := by
    simp [WellFormed, a, shared, IsSound, PartsSound, Schema.id, Value.MayList, Value.isLiteral,
      Value.datum, Value.HasClass]
  have wfB : b.WellFormed := by
    simp [WellFormed, b, shared, absent, IsSound, PartsSound, Schema.id]
  have yes : ((upTo .standard 1 false).conforms a.value b.value).outcome = .ok true := rfl
  let heap : Heap := .ofNodes [.plain (.made 0) .string, shared, .plain (.made 2) .number,
    .plain (.made 3) .undefined, absent, .literal (.made 5) [.text "v"], .plain (.made 6) .string,
    a, .wrap (.made 8) .optional (.plain (.made 6) .string), b]
  have livesA : a.LivesIn heap := by
    simp [LivesIn, heap, a, shared, absent, Heap.Keeps, Heap.KeepsClass, Schema.id, listed,
      Heap.ofNodes]
  have livesB : b.LivesIn heap := by
    simp [LivesIn, heap, a, b, shared, absent, Heap.Keeps, Schema.id, listed, Heap.ofNodes]
  have answer := conforms_iff_fieldwise .standard 1 false (Int.le_refl 1) wfA wfB livesA livesB
    (fun _ => .made 10) (fun _ => .made 11) (fun _ => rfl)
  have fieldwise := answer.1.mp yes
  refine ⟨wfA, wfB, yes, (fieldwise ("x", shared) ?_).1 shared ?_,
    (fieldwise ("z", absent) ?_).2 ?_, answer.2 yes ("x", shared) ?_ rfl⟩
  all_goals simp

end Policy

end Conformance
