/-
# Conformance.Proofs.Options — an option conforms to its union.

An option is found again in its union by the rule for its own kind, which is another one for a
literal, for `undefined`, for an array and for the rest (`assignable_option`).  It takes one level
to find it, because it is the same node there.  The kinds that are left out (`Findable`) are decided
before the options are gone through one by one.  A union all of whose options are options of another
one takes a level more.

The options before the one that is looked for are compared with it as well.  One of them may lead
down further than there is room for, and then the comparison is given up.
-/
import Conformance.Proofs.Listed
import Conformance.Proofs.Room

namespace Conformance

namespace Schema

variable {a b o : Schema} {n : Nat} {i j : Ident} {options more : List Schema}

/-- **`Findable o`** — the kinds that are found as an option by going through the options. -/
def Findable (o : Schema) : Prop :=
  o.kind? ∉ [some .unknown, some .enum, some .optional, some .nullable, some .union]

/-- It is enough that the pair is accepted one level down by the rule that its kinds choose. -/
theorem assignable_of_accepts (r : Rule) (hr : Rule.chosen false a.kind? b.kind? = r)
    (h : Rule.Accepts (Assignable n) r a b) : Assignable (n + 1) a b := by
  rw [Assignable, rule]
  cases same : a.id.same b.id with
  | true => exact same
  | false =>
    rw [hr]
    exact h

theorem assignable_self (built : ∃ m, o.id = .made m) : Assignable 1 o o := by
  obtain ⟨m, hm⟩ := built
  have same : o.id.same o.id = true := Ident.same_iff.mpr ⟨m, hm, hm⟩
  rw [Assignable, rule, same]
  exact same

/-- **An option is found in its union**, one level down. -/
theorem assignable_option (sound : o.IsSound) (findable : o.Findable) (ho : o ∈ options) :
    Assignable 2 o (union j options) := by
  have found : ∃ p ∈ options, Assignable 1 o p := ⟨o, ho, assignable_self sound.1⟩
  cases o with
  | plain i sort =>
    cases sort with
    | any | never => exact assignable_of_accepts .topBottom rfl (.inr rfl)
    | undefined =>
      exact assignable_of_accepts .undefinedSource rfl (List.any_eq_true.mpr ⟨_, ho, rfl⟩)
    | string | number | boolean | bigint | symbol | null =>
      exact assignable_of_accepts .unionTarget rfl found
    | unknown => exact absurd (by simp [kind?, Plain.kind]) findable
  | literal i values =>
    -- Each value is looked for in all the options, and stands in this one.
    obtain ⟨nonempty, may⟩ := sound.2
    refine assignable_of_accepts .literalSource rfl ⟨nonempty, List.all_eq_true.mpr fun v hv => ?_⟩
    refine List.any_eq_true.mpr ⟨_, ho, List.any_eq_true.mpr ⟨v, hv, ?_⟩⟩
    exact Value.sameValue_of_essence_eq (may v hv) (may v hv) rfl
  | array i element =>
    exact assignable_of_accepts .arrayToUnion rfl ⟨_, ho, rfl, assignable_self sound.1⟩
  | bare | tuple | object | record | intersection | custom =>
    exact assignable_of_accepts .unionTarget rfl found
  | wrap i w => cases w <;> exact absurd (by simp [kind?, Wrapper.kind]) findable
  | enum | union => exact absurd (by simp [kind?]) findable

/-- **A union of options of another one** takes a level more. -/
theorem assignable_suboptions (sound : (union i more).WellFormed)
    (among : ∀ o ∈ more, o.Findable ∧ o ∈ options) :
    Assignable 3 (union i more) (union j options) := by
  refine assignable_of_accepts .unionSource rfl ⟨sound.here.2, fun o ho => ?_⟩
  exact assignable_option (sound.child ho).here (among o ho).1 (among o ho).2

end Schema

namespace Policy

open Schema

/-- **`Conforming`** — the answer is yes, unless the comparison is given up for lack of room; and it
is not given up where the trees or the limit are not too high. -/
structure Conforming (stack : Stack) (deepest : Int) (trace : Bool) (a b : Schema) : Prop where
  yes : ((upTo stack deepest trace).conforms a.value b.value).outcome = .ok true ↔
    ¬ (upTo stack deepest trace).Overflows a.value b.value
  held : 5 * (a.height + b.height) + stack.most ≤ stack.whole ∨
      5 * (deepest + 1) + stack.most ≤ stack.whole →
    ¬ (upTo stack deepest trace).Overflows a.value b.value

theorem conforming_of_assignable {stack : Stack} {deepest : Int} {trace : Bool} {a b : Schema}
    {n : Nat} (wf : a.WellFormed) (accepted : Assignable (n + 1) a b) (deep : n ≤ deepest) :
    Conforming stack deepest trace a b := by
  refine ⟨conforms_iff_not_overflows (accepted.mono ?_), not_overflows_of_bound wf⟩
  rw [levelsFrom_upTo]
  omega

/-- **Options conform to their union**, and so does a union of some of them, in any order and
whatever other options there are. -/
theorem conforms_to_union (stack : Stack) (deepest : Int) (trace : Bool) (j : Ident)
    (options : List Schema) (wf : (union j options).WellFormed) :
    (1 ≤ deepest → ∀ o ∈ options, o.Findable →
        Conforming stack deepest trace o (union j options)) ∧
      (2 ≤ deepest → ∀ i more, (union i more).WellFormed →
        (∀ o ∈ more, o.Findable ∧ o ∈ options) →
        Conforming stack deepest trace (union i more) (union j options)) := by
  refine ⟨fun deep o ho findable => ?_, fun deep i more sound among => ?_⟩
  · have sound := wf.child ho
    exact conforming_of_assignable sound (assignable_option sound.here findable ho) deep
  · exact conforming_of_assignable sound (assignable_suboptions sound among) deep

/-- Options of four kinds, each with a rule of its own, behind one that is wrapped. -/
theorem four_options_conform :
    let text : Schema := .plain (.made 0) .string
    let wrapped : Schema := .wrap (.made 1) .nullable text
    let letter : Schema := .literal (.made 2) [.text "x", .null]
    let missing : Schema := .plain (.made 3) .undefined
    let texts : Schema := .array (.made 4) text
    let both : Schema := .intersection (.made 5) texts missing
    let b : Schema := .union (.made 6) [wrapped, letter, missing, texts, both]
    b.WellFormed ∧ ((upTo .standard 1 false).conforms both.value b.value).outcome = .ok true ∧
      ((upTo .standard 2 false).conforms (union (.made 7) [texts, both, letter, missing]).value
        b.value).outcome = .ok true := by
  intro text wrapped letter missing texts both b
  have wf : b.WellFormed := by
    simp [WellFormed, b, both, texts, missing, letter, wrapped, text, IsSound, PartsSound,
      Schema.id, Value.MayList, Value.isLiteral, Value.datum, Value.HasClass]
  have wfA : (union (.made 7) [texts, both, letter, missing]).WellFormed := by
    simp [WellFormed, both, texts, missing, letter, text, IsSound, PartsSound,
      Schema.id, Value.MayList, Value.isLiteral, Value.datum, Value.HasClass]
  have one := (conforms_to_union .standard 1 false (.made 6) _ wf).1 (by decide) both (by simp)
    (by simp [Findable, both, kind?])
  have all := (conforms_to_union .standard 2 false (.made 6) _ wf).2 (by decide) (.made 7) _ wfA
    (by simp [Findable, both, texts, missing, letter, kind?, Plain.kind])
  exact ⟨wf, one.yes.mpr (one.held (.inr (by decide))),
    all.yes.mpr (all.held (.inr (by decide)))⟩

end Policy

/-! ## Options that lead too far -/

/-- Where the options before it are refused, an option that leads too far is the end. -/
theorem Run.Exhausted.anyM {β : Type} {f : β → Run Bool} {l r : List β} {b : β}
    (refused : ∀ c ∈ l, (f c).outcome = .ok false) (h : (f b).Exhausted) :
    ((l ++ b :: r).anyM f).Exhausted := by
  induction l with
  | nil =>
    rw [List.nil_append, List.anyM_cons]
    exact Run.error_bind.mpr (.inl h)
  | cons c rest ih =>
    rw [List.forall_mem_cons] at refused
    rw [List.cons_append, List.anyM_cons]
    exact Run.error_bind.mpr (.inr ⟨false, refused.1, ih refused.2⟩)

namespace Policy

open Schema

/-- A union as target goes through its options. -/
theorem outcome_check_into_union {p : Policy} {n room : Nat} {depth : Int} {a : Schema}
    {j : Ident} {options : List Schema} (chosen : a.rule (union j options) = .unionTarget)
    (space : p.callsFor a.value (union j options).value ≤ room) :
    (p.check (n + 1) room depth a.value (union j options).value).outcome =
      ((options.map value).anyM
        (p.check n (room - Rule.unionTarget.held) (depth + 1) a.value)).outcome := by
  rw [← chosen]
  refine check_outcome space ?_
  rw [chosen, Rule.decide, Rule.unionTargetOf, unionOptions_value]
  rfl

/-- **An option behind one that leads too far.**  A tree of tuples is an option of a union, but
another such tree stands before it, and the two are compared first. -/
theorem later_option_given_up :
    let o := tuples 3 1 2000
    let b := union (.made 2) [tuples 3 0 2000, o]
    b.WellFormed ∧ o ∈ b.options ∧ o.Findable ∧
      ((upTo .standard 100000 false).conforms o.value b.value).outcome = .ok false := by
  intro o b
  have overflows : (upTo .standard 100000 false).Overflows o.value b.value := by
    have chosen : o.rule b = .unionTarget := rfl
    have slender : Slender o b := slender_of_kinds rfl rfl rfl
    have space : (upTo .standard 100000 false).callsFor o.value b.value ≤
        Stack.standard.whole := by
      rw [callsFor_of_slender slender]
      decide
    have deep : Descends (5 * 2000) 2000 (tuples 3 1 2000) (tuples 3 0 2000) :=
      descends_tuples (by decide) 2000
    rw [Overflows, levelsFrom_eq_succ (by decide)]
    refine (outcome_check_into_union chosen space).trans ?_
    exact Run.Exhausted.anyM (l := []) (by simp) (check_of_descends deep (by decide))
  refine ⟨?_, List.mem_cons_of_mem _ List.mem_cons_self, ?_, ?_⟩
  · refine everywhere_union.mpr ⟨⟨⟨2, rfl⟩, List.cons_ne_nil _ _⟩, ?_⟩
    exact List.forall_mem_cons.mpr ⟨tuples_wellFormed 3 0 2000,
      List.forall_mem_singleton.mpr (tuples_wellFormed 3 1 2000)⟩
  · rw [Findable]
    decide
  · exact conforms_outcome_of_overflows overflows

end Policy

end Conformance
