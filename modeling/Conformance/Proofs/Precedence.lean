/-
# Conformance.Proofs.Precedence — which rule has the say on a pair.

The table is asked from the top, and the first rule that does not defer has the say.
`Rule.Decides` says this of a rule and a pair, for any comparison of further pairs that the rules
may be given.  That comparison makes no difference, and neither do the parts of the two values: the
rule is the one that identity and the two kinds choose (`Rule.decides_iff`).  Nothing is asked of
the values; they may be malformed, or no nodes at all.

A rule gets only the pairs that all rules before it leave over.  For some that is less than they
look at (`Rule.Decides.left`): one of them gets none, two are left with pairs that do not conform,
and the two wrappers as sources are left with targets of other kinds.

Whatever a comparison reports as decided was decided so (`Policy.reports_or_warns`), also in a
comparison that breaks off.
-/
import Conformance.Proofs.Limits
import Conformance.Proofs.Outcome

namespace Conformance

/-! ## Runs that come to a verdict -/

namespace Run

/-- **`Concludes x`** — the run does not defer: it comes to a verdict, unless a fault breaks it
off. -/
def Concludes (x : Run (Option Bool)) : Prop := ∃ y : Run Bool, x = some <$> y

theorem concludes_pure (v : Bool) : Concludes (pure (some v)) := ⟨pure v, rfl⟩

theorem concludes_map (y : Run Bool) : Concludes (some <$> y) := ⟨y, rfl⟩

theorem concludes_bind {α : Type} {x : Run α} {f : α → Run (Option Bool)}
    (h : ∀ v, Concludes (f v)) : Concludes (x >>= f) := by
  choose g hg using h
  refine ⟨x >>= g, ?_⟩
  rw [map_bind, funext hg]

theorem concludes_quiet {x : Except Fault (Option Bool)} (h : Gives x fun v => v.isSome = true) :
    Concludes (Logged.quiet x) := by
  cases x with
  | error e => exact ⟨Logged.quiet (.error e), rfl⟩
  | ok v =>
    obtain ⟨verdict, rfl⟩ := Option.isSome_iff_exists.mp (h v rfl)
    exact concludes_pure verdict

theorem not_concludes_none : ¬ Concludes (pure none) := by
  rintro ⟨⟨records, outcome⟩, h⟩
  have same := congrArg Logged.outcome h
  cases outcome <;> cases same

end Run

/-! ## Rules that conclude -/

namespace Rule

open Value Run

section Concludes

variable {sub : Compare} {a b : Value}

theorem wrapperTarget_concludes {wrapper absence : Kind} (hb : b.isOf wrapper = true) :
    Concludes (wrapperTarget wrapper absence sub a b) := by
  rw [wrapperTarget, if_pos hb]
  split
  · exact concludes_pure true
  · cases b.wrapped? wrapper with
    | none => exact concludes_pure false
    | some inner => exact concludes_map _

theorem wrapperSource_concludes {wrapper : Kind} {probe : Value} (ha : a.isOf wrapper = true) :
    Concludes (wrapperSource wrapper probe sub a b) := by
  rw [wrapperSource, if_pos ha]
  cases a.wrapped? wrapper with
  | none => exact concludes_pure false
  | some inner =>
    show Concludes (if b.isOf wrapper = true then _ else _)
    split
    · cases b.wrapped? wrapper with
      | none => exact concludes_pure false
      | some target => exact concludes_map _
    · exact concludes_map _

theorem literalSourceOf_gives (ha : a.isOf .literal = true) :
    Gives (literalSourceOf a b) fun v => v.isSome = true := by
  unfold literalSourceOf
  rw [ha]
  refine Gives.any.bind fun values _ => ?_
  split
  · exact .ok rfl
  split
  · exact Gives.any.bind fun _ _ => .ok rfl
  split
  · exact Gives.any.bind fun _ _ => .ok rfl
  split
  · exact .ok rfl
  split
  · exact Gives.any.bind fun _ _ => Gives.any.bind fun _ _ => .ok rfl
  · exact .ok rfl

theorem enumSourceOf_gives (ha : a.isOf .enum = true) :
    Gives (enumSourceOf a b) fun v => v.isSome = true := by
  unfold enumSourceOf
  rw [ha]
  refine Gives.any.bind fun values _ => ?_
  split
  · exact .ok rfl
  split
  · exact Gives.any.bind fun _ _ => .ok rfl
  split
  · exact .ok rfl
  split
  · exact .ok rfl
  split
  · exact Gives.any.bind fun _ _ => Gives.any.bind fun _ _ => .ok rfl
  · exact .ok rfl

theorem undefinedSourceOf_gives {option : Kind} (ha : a.isOf .undefined = true) :
    Gives (undefinedSourceOf option a b) fun v => v.isSome = true := by
  unfold undefinedSourceOf
  rw [ha]
  show Gives (if b.isOf .undefined = true then _ else _) _
  split
  · exact .ok rfl
  split
  · exact Gives.any.bind fun _ _ => .ok rfl
  · exact .ok rfl

theorem arrayPairOf_concludes (h : (a.isOf .array && b.isOf .array) = true) :
    Concludes (arrayPairOf sub a b) := by
  rw [arrayPairOf, if_pos h]
  split
  · exact concludes_map _
  · exact concludes_pure false

theorem arrayToUnionOf_concludes (h : (a.isOf .array && b.isOf .union) = true) :
    Concludes (arrayToUnionOf sub a b) := by
  rw [arrayToUnionOf, if_pos h]
  exact concludes_bind fun _ => concludes_map _

theorem tuplePairOf_concludes (h : (a.isOf .tuple && b.isOf .tuple) = true) :
    Concludes (tuplePairOf sub a b) := by
  rw [tuplePairOf, if_pos h]
  refine concludes_bind fun left => concludes_bind fun right => ?_
  split
  · split
    · exact concludes_map _
    · exact concludes_pure false
  · exact concludes_pure false

theorem objectPairOf_concludes (h : (a.isOf .object && b.isOf .object) = true) :
    Concludes (objectPairOf sub a b) := by
  rw [objectPairOf, if_pos h]
  exact concludes_map _

theorem recordPairOf_concludes (h : (a.isOf .record && b.isOf .record) = true) :
    Concludes (recordPairOf sub a b) := by
  rw [recordPairOf, if_pos h]
  split
  · exact concludes_map _
  · exact concludes_pure false

theorem unionSourceOf_concludes (h : a.isOf .union = true) :
    Concludes (unionSourceOf sub a b) := by
  rw [unionSourceOf, if_pos h]
  refine concludes_bind fun options => ?_
  split
  · exact concludes_pure false
  · exact concludes_map _

theorem unionTargetOf_concludes (h : b.isOf .union = true) :
    Concludes (unionTargetOf sub a b) := by
  rw [unionTargetOf, if_pos h]
  exact concludes_bind fun _ => concludes_map _

theorem intersectionSourceOf_concludes (h : a.isOf .intersection = true) :
    Concludes (intersectionSourceOf sub a b) := by
  rw [intersectionSourceOf, if_pos h]
  split
  · exact concludes_map _
  · exact concludes_pure false

theorem intersectionTargetOf_concludes (h : b.isOf .intersection = true) :
    Concludes (intersectionTargetOf sub a b) := by
  rw [intersectionTargetOf, if_pos h]
  split
  · exact concludes_map _
  · exact concludes_pure false

/-- A rule that applies does not defer, whatever the further comparisons answer. -/
theorem decide_concludes {r : Rule} (h : r.applies (a.same b) a.kind? b.kind? = true) :
    Concludes (Rule.decide sub a b r) := by
  rw [applies.eq_def] at h
  cases r with
  | identity =>
    rw [Rule.decide, identityOf, if_pos h]
    exact concludes_pure true
  | topBottom =>
    rw [Rule.decide, topBottomOf]
    simp only [Bool.or_eq_true] at h
    split
    · exact concludes_pure true
    split
    · exact concludes_pure true
    split
    · exact concludes_pure false
    · simp_all [isOf]
  | optionalTarget | nullableTarget => exact wrapperTarget_concludes h
  | literalSource => exact concludes_quiet (literalSourceOf_gives h)
  | enumSource => exact concludes_quiet (enumSourceOf_gives h)
  | primitivePair =>
    rw [Bool.and_eq_true, Option.any_eq_true, Option.any_eq_true] at h
    obtain ⟨⟨k, hk, primitive⟩, ⟨l, hl, primitive'⟩⟩ := h
    simp only [Rule.decide, primitivePairOf, hk, hl, primitive, primitive']
    exact concludes_pure _
  | undefinedSource | undefinedSourceNullUnion =>
    exact concludes_quiet (undefinedSourceOf_gives h)
  | optionalSource | nullableSource => exact wrapperSource_concludes h
  | arrayPair => exact arrayPairOf_concludes h
  | arrayToUnion => exact arrayToUnionOf_concludes h
  | unionToArray =>
    have guard : (a.isOf .union && b.isOf .array) = true := h
    rw [Rule.decide, unionToArrayOf, if_pos guard]
    exact concludes_pure false
  | tuplePair => exact tuplePairOf_concludes h
  | objectPair => exact objectPairOf_concludes h
  | recordPair => exact recordPairOf_concludes h
  | unionSource => exact unionSourceOf_concludes h
  | unionTarget => exact unionTargetOf_concludes h
  | intersectionSource => exact intersectionSourceOf_concludes h
  | intersectionTarget => exact intersectionTargetOf_concludes h
  | customPair =>
    have guard : (a.isOf .custom && b.isOf .custom) = true := h
    rw [Rule.decide, customPairOf, if_pos guard]
    exact concludes_pure _
  | primitiveFallback =>
    rw [Option.any_eq_true] at h
    obtain ⟨l, hl, fallback⟩ := h
    simp only [Rule.decide, primitiveFallbackOf, hl, fallback]
    exact concludes_pure _
  | otherwise => exact concludes_pure false

end Concludes

/-! ## The rule that has the say -/

/-- **`Decides sub a b r`** — the rule has the say on the pair: those before it in the table defer,
and it does not. -/
def Decides (sub : Compare) (a b : Value) (r : Rule) : Prop :=
  (∀ s ∈ r.earlier, Rule.decide sub a b s = pure none) ∧ Concludes (Rule.decide sub a b r)

section Decides

variable {sub : Compare} {a b : Value} {r : Rule}

/-- **The rule that has the say is the one that identity and kinds choose.** -/
theorem decides_iff : Decides sub a b r ↔ r = chosen (a.same b) a.kind? b.kind? := by
  have applies_iff (s : Rule) :
      Concludes (Rule.decide sub a b s) ↔ s.applies (a.same b) a.kind? b.kind? = true := by
    refine ⟨fun concludes => ?_, decide_concludes⟩
    by_contra defers
    rw [decide_defers (Bool.eq_false_iff.mpr defers)] at concludes
    exact not_concludes_none concludes
  have defers_iff (s : Rule) : Rule.decide sub a b s = pure none ↔
      s.applies (a.same b) a.kind? b.kind? = false := by
    refine ⟨fun defers => ?_, decide_defers⟩
    rw [Bool.eq_false_iff, Ne, ← applies_iff, defers]
    exact not_concludes_none
  have first : r = chosen (a.same b) a.kind? b.kind? ↔
      (Rule.all.find? fun s => s.applies (a.same b) a.kind? b.kind?) = some r := by
    rw [find?_chosen, Option.some.injEq, eq_comm]
  rw [first, find?_eq_some_iff_takeWhile, Decides, applies_iff]
  simp only [defers_iff, earlier, mem_all, true_and]
  exact and_comm

end Decides

/-! ## What is left for a rule -/

section Left

variable {same : Bool} {k l : Option Kind}

/-- Two custom nodes that are left are two nodes. -/
theorem same_eq_false_of_chosen (h : chosen same k l = .customPair) : same = false :=
  not_applies_of_earlier (s := .identity) h (by decide)

/-- Two primitives of one kind are not left for the last resort. -/
theorem kinds_ne_of_chosen (h : chosen same k l = .primitiveFallback) : k ≠ l := by
  intro alike
  have target : l.any Kind.isFallback = true := applies_of_chosen h
  have pair : (k.any Kind.isPrimitive && l.any Kind.isPrimitive) = false :=
    not_applies_of_earlier (s := .primitivePair) h (by decide)
  rw [Option.any_eq_true] at target
  obtain ⟨kind, rfl, fallback⟩ := target
  simp [alike, Kind.isPrimitive_of_isFallback fallback] at pair

/-- The wrappers and the two tops as targets are not left for the wrappers as sources. -/
theorem target_of_chosen
    (h : chosen same k l = .optionalSource ∨ chosen same k l = .nullableSource) :
    ∀ kind ∈ [Kind.optional, .nullable, .any, .unknown], l ≠ some kind := by
  have passed (s : Rule) (first : s ∈ Rule.earlier .optionalSource)
      (second : s ∈ Rule.earlier .nullableSource) : s.applies same k l = false := by
    rcases h with h | h
    · exact not_applies_of_earlier h first
    · exact not_applies_of_earlier h second
  have top := passed .topBottom (by decide) (by decide)
  have optional := passed .optionalTarget (by decide) (by decide)
  have nullable := passed .nullableTarget (by decide) (by decide)
  simp only [applies, Bool.or_eq_false_iff, beq_eq_false_iff_ne] at top optional nullable
  simp [optional, nullable, top]

end Left

/-- **What is left for a rule.**  One rule has the say on no pair, two find that the pairs they get
do not conform, and the wrappers as sources get no target that is a wrapper or a top. -/
theorem Decides.left {sub : Compare} {a b : Value} {r : Rule} (h : Decides sub a b r) :
    r ≠ .undefinedSourceNullUnion ∧
      (r = .customPair ∨ r = .primitiveFallback → Rule.decide sub a b r = pure (some false)) ∧
      (r = .optionalSource ∨ r = .nullableSource →
        ∀ kind ∈ [Kind.optional, .nullable, .any, .unknown], b.kind? ≠ some kind) := by
  have chosen_eq := (decides_iff.mp h).symm
  have applies := applies_of_chosen chosen_eq
  refine ⟨?_, ?_, ?_⟩
  · rw [← chosen_eq]
    exact chosen_ne_undefinedSourceNullUnion _ _ _
  · rintro (rfl | rfl)
    · have guard : (a.isOf .custom && b.isOf .custom) = true := applies
      rw [Rule.decide, customPairOf, if_pos guard, same_eq_false_of_chosen chosen_eq]
    · rw [Rule.applies, Option.any_eq_true] at applies
      obtain ⟨l, hl, fallback⟩ := applies
      have other : (a.kind? == some l) = false :=
        beq_eq_false_iff_ne.mpr (hl ▸ kinds_ne_of_chosen chosen_eq)
      simp [Rule.decide, primitiveFallbackOf, hl, fallback, isOf, other]
  · rintro (rfl | rfl)
    · exact target_of_chosen (.inl chosen_eq)
    · exact target_of_chosen (.inr chosen_eq)

end Rule

/-! ## What comparisons report -/

/-- An inquiry reports only what is reported for one of its questions. -/
theorem Inquiry.exists_record {σ α : Type} {clear : Prop} {may : σ → Prop}
    {f : (σ → Run Bool) → Run α} {sub : σ → Run Bool} {r : Record} (hf : Inquiry clear may f) (h : r ∈ (f sub).records) :
    ∃ q, may q ∧ r ∈ (sub q).records := by
  induction hf with
  | answer x reads => cases h
  | ask q next hq _ ih =>
    have split : r ∈ (sub q).records ∨ ∃ v, r ∈ (next v sub).records := by
      change r ∈ (Logged.andThen (sub q) fun v => next v sub).records at h
      unfold Logged.andThen at h
      split at h
      · rename_i v _
        exact (List.mem_append.mp h).imp_right fun later => ⟨v, later⟩
      · exact .inl h
    rcases split with asked | ⟨v, later⟩
    · exact ⟨q, hq, asked⟩
    · exact ih v later

namespace Policy

open Rule

variable {p : Policy} {n room : Nat} {depth : Int} {a b : Value}

/-- **A comparison is what the rule that has the say answers**, and a report of it. -/
theorem check_eq_chosen (space : p.callsFor a b ≤ room) :
    let rule := chosen (a.same b) a.kind? b.kind?
    ∃ answer : Run Bool,
      Rule.decide (p.check n (room - rule.held) (depth + 1)) a b rule = some <$> answer ∧
      p.check (n + 1) room depth a b = (do
        let verdict ← answer
        Logged.note (p.report depth a b ⟨rule, verdict⟩)
        pure verdict) := by
  intro rule
  obtain ⟨answer, decides⟩ :
      Run.Concludes (Rule.decide (p.check n (room - rule.held) (depth + 1)) a b rule) :=
    decide_concludes (applies_of_chosen rfl)
  have decision := firstDecision_eq
    (fun r => Rule.decide (p.check n (room - r.held) (depth + 1)) a b r)
    (fun _ => decide_defers) (find?_chosen (a.same b) a.kind? b.kind?) decides
  refine ⟨answer, decides, ?_⟩
  rw [check, if_neg (Nat.not_lt.mpr space)]
  dsimp only
  rw [decision, bind_map_left]

/-- **`Decided p depth x y d`** — a comparison under `p` that looks at the pair at this depth comes
to the decision `d`: its rule has the say there, and answers so. -/
def Decided (p : Policy) (depth : Int) (x y : Value) (d : Decision) : Prop :=
  ∃ (n room : Nat), Decides (p.check n room (depth + 1)) x y d.rule ∧
    (Rule.decide (p.check n room (depth + 1)) x y d.rule).outcome = .ok (some d.verdict)

/-- **`Reports p r`** — the record tells what a comparison under `p` decided about a pair. -/
def Reports (p : Policy) (r : Record) : Prop :=
  ∃ (depth : Int) (x y : Value) (d : Decision),
    r = .decided depth x.label y.label d.verdict d.rule ∧ p.Decided depth x y d

theorem level_exceeded {r : Record} (h : r ∈ (p.exceeded room a b).records) :
    r.level = .warning := by
  unfold exceeded at h
  split at h
  · cases h
  · split at h
    · cases h
    · cases List.mem_singleton.mp h
      rfl

/-- Whatever is reported at a level is a decision of that level, or is reported below it. -/
theorem record_check_succ {r : Record} (h : r ∈ (p.check (n + 1) room depth a b).records) :
    p.Reports r ∨ ∃ q : Question,
      r ∈ (p.check n (room - q.1.held) (depth + 1) q.2.1 q.2.2).records := by
  by_cases short : room < p.callsFor a b
  · rw [check_succ, if_pos short] at h
    cases h
  · obtain ⟨answer, decides, whole⟩ := @check_eq_chosen p n room depth a b (Nat.le_of_not_lt short)
    rw [whole] at h
    obtain ⟨records, outcome⟩ := answer
    set rule := chosen (a.same b) a.kind? b.kind? with hrule
    -- The records of the answer are those of the rule, and a report may follow.
    have asked : r ∈ records → ∃ q : Question,
        r ∈ (p.check n (room - q.1.held) (depth + 1) q.2.1 q.2.2).records := by
      intro hr
      have ruled :
          r ∈ (Rule.decide (p.check n (room - rule.held) (depth + 1)) a b rule).records := by
        rw [decides]
        cases outcome with
        | error e => exact hr
        | ok v => exact List.mem_append_left _ hr
      obtain ⟨q, -, hq⟩ : ∃ q : Value × Value, Asked rule a b q ∧
          r ∈ (p.check n (room - rule.held) (depth + 1) q.1 q.2).records :=
        (decide_inquires rule a b).exists_record ruled
      exact ⟨(rule, q), hq⟩
    cases outcome with
    | error e => exact .inr (asked h)
    | ok v =>
      rw [Logged.bind_ok, List.mem_append] at h
      rcases h with h | h
      · exact .inr (asked h)
      · left
        rw [Logged.note, Logged.bind_ok, List.mem_append] at h
        rcases h with h | h
        · unfold report at h
          split at h
          · refine ⟨depth, a, b, ⟨rule, v⟩, List.mem_singleton.mp h, n, room - rule.held,
              decides_iff.mpr hrule, ?_⟩
            rw [decides]
            rfl
          · cases h
        · cases h

/-- **Every record is a warning or the decision of a rule that has the say.** -/
theorem reports_or_warns {r : Record} (h : r ∈ (p.check n room depth a b).records) :
    p.Reports r ∨ r.level = .warning := by
  induction n generalizing room depth a b with
  | zero => exact .inr (level_exceeded h)
  | succ n ih =>
    rcases record_check_succ h with reported | ⟨q, below⟩
    · exact .inl reported
    · exact ih below

theorem reports_of_mem {r : Record} (h : r ∈ (p.conforms a b).records) (debug : r.level = .debug) :
    p.Reports r := by
  have told (hr : r.level = .warning) : p.Reports r := by
    rw [hr] at debug
    cases debug
  by_cases overflow : p.Overflows a b
  · rw [conforms_of_overflows overflow, Logged.note, Logged.bind_ok, List.mem_append] at h
    rcases h with h | h
    · exact (reports_or_warns h).elim id told
    · cases List.mem_singleton.mp h
      exact told rfl
  · rw [conforms_of_not_overflows overflow] at h
    exact (reports_or_warns h).elim id told

/-- A decision is that of a rule on a pair that is left for it. -/
theorem Decided.left {d : Decision} (h : p.Decided depth a b d) :
    d.rule ≠ .undefinedSourceNullUnion ∧
      (d.rule = .customPair ∨ d.rule = .primitiveFallback → d.verdict = false) ∧
      (d.rule = .optionalSource ∨ d.rule = .nullableSource →
        ∀ kind ∈ [Kind.optional, .nullable, .any, .unknown], b.kind? ≠ some kind) := by
  obtain ⟨n, room, decides, answer⟩ := h
  obtain ⟨reached, refused, targets⟩ := decides.left
  refine ⟨reached, fun last => ?_, targets⟩
  rw [refused last] at answer
  exact (Option.some.inj (Except.ok.inj answer)).symm

/-- **Which rule decides depends on identity and kinds only.**  For any two values, whatever the
further comparisons answer, the rule that has the say is a function of whether the two are one
object and of their kinds; a comparison, under any policy and at any depth that is looked at, is the
answer of that rule and a report of it.  Some rules never get a pair that they would accept, or a
pair of some kinds, and no comparison reports otherwise. -/
theorem decides_by_identity_and_kinds :
    (∀ (sub : Compare) (a b : Value) (r : Rule),
      Decides sub a b r ↔ r = chosen (a.same b) a.kind? b.kind?) ∧
    (∀ (p : Policy) (n room : Nat) (depth : Int) (a b : Value), p.callsFor a b ≤ room →
      let rule := chosen (a.same b) a.kind? b.kind?
      ∃ answer : Run Bool,
        Rule.decide (p.check n (room - rule.held) (depth + 1)) a b rule = some <$> answer ∧
        p.check (n + 1) room depth a b = (do
          let verdict ← answer
          Logged.note (p.report depth a b ⟨rule, verdict⟩)
          pure verdict)) ∧
    (∀ (p : Policy) (a b : Value), ∀ r ∈ (p.conforms a b).records, r.level = .debug →
      ∃ depth x y d, r = .decided depth x.label y.label d.verdict d.rule ∧ p.Decided depth x y d) ∧
    (∀ (p : Policy) (depth : Int) (x y : Value) (d : Decision), p.Decided depth x y d →
      d.rule ≠ .undefinedSourceNullUnion ∧
      (d.rule = .customPair ∨ d.rule = .primitiveFallback → d.verdict = false) ∧
      (d.rule = .optionalSource ∨ d.rule = .nullableSource →
        ∀ kind ∈ [Kind.optional, .nullable, .any, .unknown], y.kind? ≠ some kind)) := by
  refine ⟨fun sub a b r => decides_iff, ?_, ?_, fun p depth x y d decided => decided.left⟩
  · intro p n room depth a b space
    exact check_eq_chosen space
  · intro p a b r hr debug
    exact reports_of_mem hr debug

/-- Two predicates are compared below an optional source, at depth one. -/
theorem optional_custom_decided :
    let a : Value := .node (.made 0) (.of .optional) [(.inner, .node (.made 1) (.of .custom) [])]
    let b : Value := .node (.made 2) (.of .custom) []
    let r := Record.decided 1 "custom" "custom" false .customPair
    r ∈ ((upTo .standard 9 true).conforms a b).records ∧
      ∃ x y d, (upTo .standard 9 true).Decided 1 x y d ∧ d.rule = .customPair ∧ d.verdict = false := by
  intro a b r
  have reported : r ∈ ((upTo .standard 9 true).conforms a b).records := .head _
  obtain ⟨-, -, decided_of_mem, left⟩ := decides_by_identity_and_kinds
  obtain ⟨depth, x, y, d, told, decided⟩ := decided_of_mem (upTo .standard 9 true) a b r reported rfl
  obtain ⟨rfl, -, -, -, rule⟩ := Record.decided.inj told
  exact ⟨reported, x, y, d, decided, rule.symm, (left _ 1 x y d decided).2.1 (.inl rule.symm)⟩

end Policy

end Conformance
