/-
# Conformance.Proofs.Fits — the comparison of descriptors as a relation.

`Fits a b` is what the comparison decides, with its limits left aside: the rule that `a` and `b`
choose accepts the pair, with `Fits` in place of the comparison one level down (`fits_iff`).  It is
reached from the run through `Assignable n`, the same relation with `n` levels, where a pair for
which no level is left does not conform.

Two limits stand between the relation and an answer.  The depth limit never matters where it is at
least the sum of the two heights.  The calls that can be held at once matter to comparisons that go
deep (`Policy.Overflows`).
-/
import Conformance.Proofs.Dispatch

namespace Conformance

/-! ## The first rule that applies -/

namespace Rule

theorem find?_chosen (same : Bool) (k l : Option Kind) :
    (Rule.all.find? fun r => r.applies same k l) = some (chosen same k l) := by
  have found : (Rule.all.find? fun r => r.applies same k l).isSome = true :=
    List.find?_isSome.mpr ⟨.otherwise, mem_all .otherwise, rfl⟩
  obtain ⟨r, hr⟩ := Option.isSome_iff_exists.mp found
  rw [chosen, hr]
  rfl

/-- The rules that stand before a rule in the table. -/
def earlier (r : Rule) : List Rule := Rule.all.takeWhile (· != r)

/-- The first rule with a property is the one with it that has none before it with it. -/
theorem find?_eq_some_iff_takeWhile {p : Rule → Bool} {r : Rule} {rules : List Rule} :
    rules.find? p = some r ↔
      r ∈ rules ∧ p r = true ∧ ∀ s ∈ rules.takeWhile (· != r), p s = false := by
  induction rules with
  | nil => simp
  | cons t rest ih =>
    rw [List.find?_cons, List.takeWhile_cons]
    by_cases one : t = r
    · subst one
      cases ht : p t <;> simp
      intro found
      rw [List.find?_some found] at ht
      cases ht
    · cases ht : p t <;> simp [ht, one, Ne.symm one, ih]

section Chosen

variable {same : Bool} {k l : Option Kind} {r s : Rule}

theorem applies_of_chosen (h : chosen same k l = r) : r.applies same k l = true := by
  rw [← h]
  exact List.find?_some (find?_chosen same k l)

/-- A rule gets only the pairs that the rules before it leave over. -/
theorem not_applies_of_earlier (h : chosen same k l = r) (hs : s ∈ r.earlier) :
    s.applies same k l = false := by
  have first := find?_chosen same k l
  rw [h] at first
  exact (find?_eq_some_iff_takeWhile.mp first).2.2 s hs

/-- The rule that takes null for the undefined value is never reached: the one before it takes every
`undefined` source. -/
theorem chosen_ne_undefinedSourceNullUnion (same : Bool) (k l : Option Kind) :
    chosen same k l ≠ .undefinedSourceNullUnion := by
  intro h
  have applies : Rule.undefinedSource.applies same k l = true :=
    applies_of_chosen (r := .undefinedSourceNullUnion) h
  rw [not_applies_of_earlier h (by decide)] at applies
  cases applies

end Chosen

/-- Top and bottom are looked at before anything but identity. -/
theorem chosen_topBottom {k l : Option Kind} (h : topBottom.applies false k l = true) :
    chosen false k l = .topBottom := by
  rw [chosen, all, List.find?_cons_of_neg (by simp [applies]), List.find?_cons_of_pos h]
  rfl

end Rule

namespace Schema

/-- **`rule`** — the rule that decides a pair. -/
def rule (a b : Schema) : Rule := Rule.chosen (a.id.same b.id) a.kind? b.kind?

theorem applies_rule (a b : Schema) :
    (a.rule b).applies (a.id.same b.id) a.kind? b.kind? = true :=
  List.find?_some (Rule.find?_chosen _ _ _)

end Schema

/-- Rules before the first that applies are passed over, and it makes the decision. -/
theorem firstDecision_eq (ask : Rule → Run (Option Bool)) {applies : Rule → Bool} {r : Rule}
    {y : Run Bool} {rules : List Rule} (defers : ∀ s, applies s = false → ask s = pure none)
    (first : rules.find? applies = some r) (decides : ask r = some <$> y) :
    firstDecision ask rules = Decision.mk r <$> y := by
  -- By induction on the rules that are still to be asked.
  induction rules with
  | nil => cases first
  | cons s rest ih =>
    cases hs : applies s with
    | true =>
      rw [List.find?_cons, hs] at first
      cases first
      rw [firstDecision, decides, bind_map_left, map_eq_pure_bind]
    | false =>
      rw [List.find?_cons, hs] at first
      rw [firstDecision, defers s hs, pure_bind]
      exact ih first

namespace Policy

open Schema

variable {p : Policy} {a b : Schema}

/-- The answer for a pair is what the rule that decides it answers. -/
theorem check_outcome {levels room : Nat} {depth : Int} {y : Run Bool}
    (space : p.callsFor a.value b.value ≤ room)
    (decides : Rule.decide (p.check levels (room - (a.rule b).held) (depth + 1)) a.value b.value
      (a.rule b) = some <$> y) :
    (p.check (levels + 1) room depth a.value b.value).outcome = y.outcome := by
  have decision := firstDecision_eq
    (fun r => Rule.decide (p.check levels (room - r.held) (depth + 1)) a.value b.value r)
    (fun _ => Rule.decide_of_not_applies) (Rule.find?_chosen _ _ _) decides
  rw [check, if_neg (Nat.not_lt.mpr space)]
  dsimp only
  rw [decision]
  obtain ⟨records, outcome⟩ := y
  cases outcome <;> rfl

end Policy

/-! ## The relation, level by level -/

namespace Schema

/-- The comparison with so many levels. -/
def Assignable : Nat → Schema → Schema → Prop
  | 0, _, _ => False
  | levels + 1, a, b => Rule.Accepts (Assignable levels) (a.rule b) a b

/-- **`Fits a b`** — the comparison accepts the pair, given levels enough. -/
def Fits (a b : Schema) : Prop := ∃ levels, Assignable levels a b

theorem Assignable.mono {m n : Nat} {a b : Schema} (h : Assignable m a b) (le : m ≤ n) :
    Assignable n a b := by
  induction m generalizing n a b with
  | zero => exact h.elim
  | succ m ih =>
    cases n with
    | zero => omega
    | succ n => exact Rule.Accepts.imp (fun x y _ hxy => ih hxy (by omega)) h

/-- As many levels are enough as both trees have together. -/
theorem Assignable.of_height {n : Nat} {a b : Schema} (h : Assignable n a b) :
    Assignable (a.height + b.height + 1) a b := by
  induction n generalizing a b with
  | zero => exact h.elim
  | succ n ih => exact Rule.Accepts.imp (fun x y lower hxy => (ih hxy).mono (by omega)) h

theorem assignable_iff_fits {n : Nat} {a b : Schema} (enough : a.height + b.height < n) :
    Assignable n a b ↔ Fits a b := by
  constructor
  · intro h
    exact ⟨n, h⟩
  · rintro ⟨m, h⟩
    exact h.of_height.mono enough

theorem fits_iff {a b : Schema} : Fits a b ↔ Rule.Accepts Fits (a.rule b) a b := by
  constructor
  · rintro ⟨n, h⟩
    cases n with
    | zero => exact h.elim
    | succ n => exact Rule.Accepts.imp (fun x y _ hxy => ⟨n, hxy⟩) h
  · intro h
    refine ⟨a.height + b.height + 1, ?_⟩
    exact Rule.Accepts.imp (fun x y lower hxy => (assignable_iff_fits lower).mpr hxy) h

/-- The relation on a pair of two nodes whose kinds choose a given rule. -/
theorem fits_by {a b : Schema} (r : Rule) (apart : a.id.same b.id = false)
    (hr : Rule.chosen false a.kind? b.kind? = r) : Fits a b ↔ Rule.Accepts Fits r a b := by
  rw [fits_iff, rule, apart, hr]

theorem fits_of_same {a b : Schema} (h : a.id.same b.id = true) : Fits a b := by
  rw [fits_iff, rule, h]
  exact h

/-- It is enough that the pair is accepted by the rule that its kinds choose: one node conforms to
itself by another rule. -/
theorem fits_of_accepts {a b : Schema} (r : Rule) (hr : Rule.chosen false a.kind? b.kind? = r)
    (h : Rule.Accepts Fits r a b) : Fits a b := by
  cases apart : a.id.same b.id with
  | true => exact fits_of_same apart
  | false => exact (fits_by r apart hr).mpr h

/-- Everything conforms to a top. -/
theorem fits_of_isTop {a b : Schema} (h : b.isTop = true) : Fits a b := by
  refine fits_of_accepts .topBottom (Rule.chosen_topBottom ?_) (.inl h)
  rcases Bool.or_eq_true_iff.mp h with kind | kind <;> simp [Rule.applies, kind]

/-- A bottom conforms to everything. -/
theorem fits_of_isBottom {a b : Schema} (h : a.isBottom = true) : Fits a b := by
  refine fits_of_accepts .topBottom (Rule.chosen_topBottom ?_) (.inr h)
  rcases Bool.or_eq_true_iff.mp h with kind | kind <;> simp [Rule.applies, kind]

end Schema

/-! ## From the relation to answers -/

namespace Policy

open Schema

variable {p : Policy} {a b : Schema} {allowed : Fault → Prop}

/-- A pair for which no level is left does not conform, unless looking at it is a fault or calls run
out. -/
theorem exceeded_tells (exhausted : allowed .stackExhausted)
    (unordered : ∀ s, p.limit.reach = .unordered s → allowed (.unorderedDepth s)) (room : Nat)
    (a b : Value) : Run.Tells allowed (p.exceeded room a b) False := by
  have no : Run.Tells allowed (pure false) False := Run.tells_pure (by simp)
  unfold exceeded
  split
  case h_1 s sort => exact unordered s sort
  case h_2 =>
    split
    · exact exhausted
    · exact no

/-- **An answer of the comparison is what the relation says.**  Only two faults can stand in its
place: calls run out, or the limit is no number. -/
theorem check_tells {n room : Nat} {depth : Int} (exhausted : allowed .stackExhausted)
    (unordered : ∀ s, p.limit.reach = .unordered s → allowed (.unorderedDepth s)) :
    Run.Tells allowed (p.check n room depth a.value b.value) (Assignable n a b) := by
  -- One level of the relation is one call; at the last level the depth limit has been passed.
  induction n generalizing room depth a b with
  | zero => exact exceeded_tells exhausted unordered room _ _
  | succ n ih =>
    by_cases short : room < p.callsFor a.value b.value
    · rw [check, if_pos short]
      exact exhausted
    · have below : Rule.TellsBelow allowed (p.check n (room - (a.rule b).held) (depth + 1))
          (Assignable n) a b := fun x y _ => ih
      obtain ⟨y, decides, tells⟩ := Rule.decide_settles below (applies_rule a b)
      rw [Run.Tells, check_outcome (Nat.le_of_not_lt short) decides]
      exact tells

/-- The comparison needs more calls than can be held at once, and is given up. -/
def Overflows (p : Policy) (a b : Value) : Prop :=
  (p.check (p.levelsFrom 0) p.stack.whole 0 a b).outcome = .error .stackExhausted

theorem conforms_of_not_overflows {u v : Value} (h : ¬ p.Overflows u v) :
    p.conforms u v = p.check (p.levelsFrom 0) p.stack.whole 0 u v := by
  rw [conforms]
  split
  · rename_i exhausted
    exact absurd exhausted h
  · rfl

theorem conforms_outcome_of_not_overflows {u v : Value} (h : ¬ p.Overflows u v) :
    (p.conforms u v).outcome = (p.check (p.levelsFrom 0) p.stack.whole 0 u v).outcome := by
  rw [conforms_of_not_overflows h]

theorem conforms_outcome_of_overflows {u v : Value} (h : p.Overflows u v) :
    (p.conforms u v).outcome = .ok false := by
  rw [conforms, h]
  rfl

theorem not_overflows_of_conforms {u v : Value} (h : (p.conforms u v).outcome = .ok true) :
    ¬ p.Overflows u v := by
  intro overflow
  rw [conforms_outcome_of_overflows overflow] at h
  cases h

/-- An answer is yes exactly when the comparison says so and is not given up. -/
theorem conforms_eq_true_iff_check {u v : Value} :
    (p.conforms u v).outcome = .ok true ↔
      (p.check (p.levelsFrom 0) p.stack.whole 0 u v).outcome = .ok true := by
  constructor
  · intro yes
    rwa [← conforms_outcome_of_not_overflows (not_overflows_of_conforms yes)]
  · intro yes
    have held : ¬ p.Overflows u v := by
      rw [Overflows, yes]
      simp
    rwa [conforms_outcome_of_not_overflows held]

/-- A positive answer is found within the levels that the limit allows. -/
theorem assignable_of_conforms (h : (p.conforms a.value b.value).outcome = .ok true) :
    Assignable (p.levelsFrom 0) a b := by
  have tells : Run.Tells (fun _ => True)
      (p.check (p.levelsFrom 0) p.stack.whole 0 a.value b.value)
      (Assignable (p.levelsFrom 0) a b) := check_tells trivial fun _ _ => trivial
  rw [conforms_outcome_of_not_overflows (not_overflows_of_conforms h)] at h
  rw [Run.Tells, h] at tells
  exact tells.mp rfl

/-- A positive answer is never wrong about the relation, whatever the limits are. -/
theorem fits_of_conforms (h : (p.conforms a.value b.value).outcome = .ok true) : Fits a b :=
  ⟨_, assignable_of_conforms h⟩

/-! ## Integers as limits -/

/-- The comparison on a stack with an integer as depth limit. -/
def upTo (stack : Stack) (deepest : Int) (trace : Bool) : Policy := ⟨.ofInt deepest, trace, stack⟩

variable {stack : Stack} {deepest : Int} {trace : Bool}

theorem levelsFrom_upTo (stack : Stack) (deepest : Int) (trace : Bool) :
    (upTo stack deepest trace).levelsFrom 0 = (deepest + 1).toNat := by
  show (deepest + 1 - 0).toNat = (deepest + 1).toNat
  rw [Int.sub_zero]

theorem levelsFrom_mono {d d' : Int} (le : d ≤ d') :
    (upTo stack d trace).levelsFrom 0 ≤ (upTo stack d' trace).levelsFrom 0 := by
  rw [levelsFrom_upTo, levelsFrom_upTo]
  omega

theorem levelsFrom_eq_succ (nonneg : 0 ≤ deepest) :
    (upTo stack deepest trace).levelsFrom 0 = deepest.toNat + 1 := by
  rw [levelsFrom_upTo]
  omega

theorem overflows_iff (nonneg : 0 ≤ deepest) {u v : Value} :
    (upTo stack deepest trace).Overflows u v ↔
      ((upTo stack deepest trace).check (deepest.toNat + 1) stack.whole 0 u v).outcome =
        .error .stackExhausted := by
  rw [Overflows, levelsFrom_eq_succ nonneg]
  rfl

/-- **A comparison that is not given up answers**, and its answer is the relation within the levels
of the limit. -/
theorem conforms_answers (held : ¬ (upTo stack deepest trace).Overflows a.value b.value) :
    ∃ v, ((upTo stack deepest trace).conforms a.value b.value).outcome = .ok v ∧
      (v = true ↔ Assignable ((upTo stack deepest trace).levelsFrom 0) a b) := by
  have tells : Run.Tells (fun e => e = .stackExhausted)
      ((upTo stack deepest trace).check ((upTo stack deepest trace).levelsFrom 0) stack.whole 0
        a.value b.value)
      (Assignable ((upTo stack deepest trace).levelsFrom 0) a b) :=
    check_tells rfl fun _ sort => by cases sort
  rw [conforms_outcome_of_not_overflows held]
  rw [Run.Tells] at tells
  split at tells
  · rename_i v answer
    exact ⟨v, answer, tells⟩
  · rename_i e fault
    rw [tells] at fault
    exact absurd fault held

/-- The answer is positive exactly for the pairs that are accepted within the levels of the limit
and not given up. -/
theorem conforms_eq_true_iff_assignable :
    ((upTo stack deepest trace).conforms a.value b.value).outcome = .ok true ↔
      Assignable ((upTo stack deepest trace).levelsFrom 0) a b ∧
        ¬ (upTo stack deepest trace).Overflows a.value b.value := by
  constructor
  · intro h
    exact ⟨assignable_of_conforms h, not_overflows_of_conforms h⟩
  · rintro ⟨accepted, held⟩
    obtain ⟨v, answer, tells⟩ := conforms_answers held
    rw [answer, tells.mpr accepted]

/-- What is accepted within the levels of the limit conforms, unless its comparison is given up. -/
theorem conforms_iff_not_overflows
    (accepted : Assignable ((upTo stack deepest trace).levelsFrom 0) a b) :
    ((upTo stack deepest trace).conforms a.value b.value).outcome = .ok true ↔
      ¬ (upTo stack deepest trace).Overflows a.value b.value := by
  rw [conforms_eq_true_iff_assignable, and_iff_right accepted]

theorem assignable_iff_fits_of_deep (deep : (a.height + b.height : Int) ≤ deepest) :
    Assignable ((upTo stack deepest trace).levelsFrom 0) a b ↔ Fits a b := by
  refine assignable_iff_fits ?_
  rw [levelsFrom_upTo]
  omega

/-- **Where the limits allow it, the answer is the relation.** -/
theorem conforms_tells (deep : (a.height + b.height : Int) ≤ deepest)
    (held : ¬ (upTo stack deepest trace).Overflows a.value b.value) :
    ∃ v, ((upTo stack deepest trace).conforms a.value b.value).outcome = .ok v ∧
      (v = true ↔ Fits a b) := by
  obtain ⟨v, answer, tells⟩ := conforms_answers held
  exact ⟨v, answer, tells.trans (assignable_iff_fits_of_deep deep)⟩

/-- The answer is positive exactly for the pairs of the relation whose comparison is not given up.
-/
theorem conforms_eq_true_iff (deep : (a.height + b.height : Int) ≤ deepest) :
    ((upTo stack deepest trace).conforms a.value b.value).outcome = .ok true ↔
      Fits a b ∧ ¬ (upTo stack deepest trace).Overflows a.value b.value := by
  rw [conforms_eq_true_iff_assignable, assignable_iff_fits_of_deep deep]

/-- Comparisons that are not given up come out alike where the relation holds alike. -/
theorem conforms_outcome_eq_of_iff {a' b' : Schema}
    (alike : Assignable ((upTo stack deepest trace).levelsFrom 0) a b ↔
      Assignable ((upTo stack deepest trace).levelsFrom 0) a' b')
    (held : ¬ (upTo stack deepest trace).Overflows a.value b.value)
    (held' : ¬ (upTo stack deepest trace).Overflows a'.value b'.value) :
    ((upTo stack deepest trace).conforms a.value b.value).outcome =
      ((upTo stack deepest trace).conforms a'.value b'.value).outcome := by
  obtain ⟨v, answer, tells⟩ := conforms_answers held
  obtain ⟨v', answer', tells'⟩ := conforms_answers held'
  have same : v = v' := Bool.eq_iff_iff.mpr (tells.trans (alike.trans tells'.symm))
  rw [answer, answer', same]

/-- So do pairs of the relation alike that are given up alike. -/
theorem conforms_outcome_eq_of_fits {a' b' : Schema} (deep : (a.height + b.height : Int) ≤ deepest)
    (deep' : (a'.height + b'.height : Int) ≤ deepest) (fits : Fits a b ↔ Fits a' b')
    (alike : (upTo stack deepest trace).Overflows a.value b.value ↔
      (upTo stack deepest trace).Overflows a'.value b'.value) :
    ((upTo stack deepest trace).conforms a.value b.value).outcome =
      ((upTo stack deepest trace).conforms a'.value b'.value).outcome := by
  by_cases overflow : (upTo stack deepest trace).Overflows a.value b.value
  · rw [conforms_outcome_of_overflows overflow, conforms_outcome_of_overflows (alike.mp overflow)]
  · refine conforms_outcome_eq_of_iff ?_ overflow (mt alike.mpr overflow)
    rw [assignable_iff_fits_of_deep deep, assignable_iff_fits_of_deep deep']
    exact fits

end Policy

end Conformance
