/-
# Conformance.Proofs.Descent — how many calls a comparison needs.

Where a pair comes down to a single pair below it, and that one to another, the number of calls that
are held on the way down is a sum over the rules that decide the pairs.  `check_of_descends` says
what follows on the usual stack: the comparison is given up if there is no room for that many calls
and those for a pair, and answers true otherwise.

`tower` builds descriptors that are compared in this way.  They are what the statements about
answers have to leave out: no depth limit can make room for a comparison that goes down too far.
-/
import Conformance.Proofs.Fits

namespace Conformance

namespace Schema

/-- **`Slender a b`** — two nodes that are not one, and that it usually takes five calls to ask
about. -/
def Slender (a b : Schema) : Prop := Stack.standard.calls a.value b.value = 5

/-- **`ComesDownTo calls a b x y`** — the rule that decides the pair `(a, b)` asks about the pair
`(x, y)` only, with so many calls held, and answers the same. -/
structure ComesDownTo (calls : Nat) (a b x y : Schema) : Prop where
  slender : Slender a b
  holds : (a.rule b).held = calls
  decides : ∀ sub : Compare, ∃ z : Run Bool,
    Rule.decide sub a.value b.value (a.rule b) = some <$> z ∧
      z.outcome = (sub x.value y.value).outcome

/-- **`Descends calls steps a b`** — by so many steps down the pair comes to two nodes for text, and
so many calls are then held. -/
inductive Descends : Nat → Nat → Schema → Schema → Prop where
  | text {i j : Ident} : i.same j = false →
      Descends 0 0 (.plain i .string) (.plain j .string)
  | down {calls more steps : Nat} {a b x y : Schema} : ComesDownTo calls a b x y →
      Descends more steps x y → Descends (calls + more) (steps + 1) a b

section Rules

variable {i j : Ident} {s t : Schema}

theorem slender_of_kinds {a b : Schema} (apart : a.id.same b.id = false) (nothing : a.listed = [])
    (five : Stack.usualPair false a.kind? b.kind? = 5) : Slender a b := by
  rw [Slender, Stack.calls, same_value, apart, if_neg Bool.false_ne_true, listing_value, nothing,
    kind?_value, kind?_value]
  exact congrArg (max · 0) five

theorem both_pure_true (x : Run Bool) : (Run.both x (pure true)).outcome = x.outcome := by
  obtain ⟨records, outcome⟩ := x
  cases outcome with
  | error e => rfl
  | ok v => cases v <;> rfl

theorem either_pure_false (x : Run Bool) : (Run.either x (pure false)).outcome = x.outcome := by
  obtain ⟨records, outcome⟩ := x
  cases outcome with
  | error e => rfl
  | ok v => cases v <;> rfl

theorem rule_tuples (apart : i.same j = false) : (tuple i [s]).rule (tuple j [t]) = .tuplePair := by
  rw [rule, show (tuple i [s]).id.same (tuple j [t]).id = false from apart]
  rfl

theorem tuple_comesDownTo (apart : i.same j = false) :
    ComesDownTo 5 (tuple i [s]) (tuple j [t]) s t := by
  have chosen := rule_tuples (s := s) (t := t) apart
  refine ⟨slender_of_kinds apart rfl rfl, by rw [chosen]; rfl, fun sub => ?_⟩
  refine ⟨[(s.value, t.value)].allM fun p => sub p.1 p.2, ?_, ?_⟩
  · rw [chosen, Rule.decide, Rule.tuplePairOf, tupleItems?_value, tupleItems?_value]
    rfl
  · rw [List.allM_cons]
    exact both_pure_true _

/-- A union of one option as source. -/
theorem union_comesDownTo {b : Schema} (apart : i.same b.id = false)
    (kind : b.kind? = some .tuple ∨ b.kind? = some .union) :
    ComesDownTo 5 (union i [s]) b s b := by
  have chosen : (union i [s]).rule b = .unionSource := by
    rw [rule, show (union i [s]).id.same b.id = false from apart]
    rcases kind with kind | kind <;> rw [kind] <;> rfl
  have five : Stack.usualPair false (union i [s]).kind? b.kind? = 5 := by
    rcases kind with kind | kind <;> rw [kind] <;> rfl
  refine ⟨slender_of_kinds apart rfl five, by rw [chosen]; rfl, fun sub => ?_⟩
  refine ⟨[s.value].allM fun o => sub o b.value, ?_, ?_⟩
  · rw [chosen, Rule.decide, Rule.unionSourceOf, unionOptions_value]
    rfl
  · rw [List.allM_cons]
    exact both_pure_true _

/-- A union of one option as target. -/
theorem comesDownTo_union {items : List Schema} (apart : i.same j = false) :
    ComesDownTo 5 (tuple i items) (union j [t]) (tuple i items) t := by
  have chosen : (tuple i items).rule (union j [t]) = .unionTarget := by
    rw [rule, show (tuple i items).id.same (union j [t]).id = false from apart]
    rfl
  refine ⟨slender_of_kinds apart rfl rfl, by rw [chosen]; rfl, fun sub => ?_⟩
  refine ⟨[t.value].anyM fun o => sub (tuple i items).value o, ?_, ?_⟩
  · rw [chosen, Rule.decide, Rule.unionTargetOf, unionOptions_value]
    rfl
  · rw [List.anyM_cons]
    exact either_pure_false _

end Rules

end Schema

namespace Policy

open Schema

variable {p : Policy} {a b : Schema}

theorem check_of_short {levels room : Nat} {depth : Int} {u v : Value}
    (few : room < p.callsFor u v) :
    (p.check (levels + 1) room depth u v).outcome = .error .stackExhausted := by
  rw [check, if_pos few]
  rfl

/-- One node conforms to itself where there is room at all. -/
theorem outcome_check_same {levels room : Nat} {depth : Int}
    (same : a.id.same b.id = true) (space : p.callsFor a.value b.value ≤ room) :
    (p.check (levels + 1) room depth a.value b.value).outcome = .ok true := by
  have one : a.rule b = .identity := by
    rw [rule, same]
    rfl
  refine check_outcome (y := pure true) space ?_
  rw [one, Rule.decide, Rule.identityOf, same_value, same]
  rfl

/-- The calls that it usually takes to decide a slender pair, its record included. -/
def slenderCalls (trace : Bool) : Nat := if trace then 9 else 5

section Usual

variable {deepest : Int} {trace : Bool}

theorem callsFor_of_slender (h : Slender a b) :
    (upTo .standard deepest trace).callsFor a.value b.value = slenderCalls trace := by
  have five : (upTo .standard deepest trace).stack.calls a.value b.value = 5 := h
  rw [callsFor, five]
  cases trace <;> rfl

/-- **What room is needed for.**  A comparison that comes down to one pair after the other is given
up if the calls do not fit, and answers true if they do. -/
theorem check_of_descends {calls steps levels room : Nat} {depth : Int}
    (h : Descends calls steps a b) (enough : steps < levels) :
    ((upTo .standard deepest trace).check levels room depth a.value b.value).outcome =
      if room < calls + slenderCalls trace then .error .stackExhausted else .ok true := by
  -- By induction on the way down; every step takes from the room what its rule holds.
  induction h generalizing levels room depth with
  | @text i j apart =>
    obtain ⟨levels, rfl⟩ : ∃ n, levels = n + 1 := ⟨levels - 1, by omega⟩
    have slender : Slender (plain i .string) (plain j .string) := slender_of_kinds apart rfl rfl
    have cost : (upTo .standard deepest trace).callsFor _ _ = slenderCalls trace :=
      callsFor_of_slender slender
    by_cases few : room < slenderCalls trace
    · rw [check_of_short (by rwa [cost]), if_pos (by omega)]
    · have chosen : (plain i .string).rule (plain j .string) = .primitivePair := by
        rw [rule, show (plain i .string).id.same (plain j .string).id = false from apart]
        rfl
      have answer : ((upTo .standard deepest trace).check (levels + 1) room depth
          (plain i .string).value (plain j .string).value).outcome =
            (pure true : Run Bool).outcome :=
        check_outcome (by omega) (by rw [chosen]; rfl)
      rw [answer, if_neg (by omega)]
      rfl
  | @down calls more steps a b x y step _ ih =>
    obtain ⟨levels, rfl⟩ : ∃ n, levels = n + 1 := ⟨levels - 1, by omega⟩
    have cost : (upTo .standard deepest trace).callsFor _ _ = slenderCalls trace :=
      callsFor_of_slender step.slender
    by_cases few : room < slenderCalls trace
    · rw [check_of_short (by rwa [cost]), if_pos (by omega)]
    · obtain ⟨z, answers, outcome⟩ := step.decides
        ((upTo .standard deepest trace).check levels (room - (a.rule b).held) (depth + 1))
      have positive : 0 < slenderCalls trace := by cases trace <;> decide
      rw [check_outcome (by omega) answers, outcome, step.holds, ih (by omega)]
      by_cases fits : room < calls + more + slenderCalls trace
      · rw [if_pos fits, if_pos (by omega)]
      · rw [if_neg fits, if_neg (by omega)]

/-- A comparison that comes down too far is given up. -/
theorem overflows_of_descends {calls steps : Nat} (h : Descends calls steps a b)
    (deep : (steps : Int) ≤ deepest) (few : Stack.standard.whole < calls + slenderCalls trace) :
    (upTo .standard deepest trace).Overflows a.value b.value := by
  have levels : steps < (upTo .standard deepest trace).levelsFrom 0 := by
    rw [levelsFrom_upTo]
    omega
  rw [Overflows, check_of_descends h levels]
  exact if_pos few

/-- One that comes down not too far answers true. -/
theorem conforms_of_descends {calls steps : Nat} (h : Descends calls steps a b)
    (deep : (steps : Int) ≤ deepest) (fits : calls + slenderCalls trace ≤ Stack.standard.whole) :
    ((upTo .standard deepest trace).conforms a.value b.value).outcome = .ok true := by
  have levels : steps < (upTo .standard deepest trace).levelsFrom 0 := by
    rw [levelsFrom_upTo]
    omega
  rw [conforms_eq_true_iff_check, check_of_descends h levels]
  exact if_neg (Nat.not_lt.mpr fits)

end Usual

end Policy

/-! ## Towers -/

namespace Schema

/-- **`tower wrap base n`** — a descriptor of so many levels over a base. -/
def tower (wrap : Nat → Schema → Schema) (base : Schema) : Nat → Schema
  | 0 => base
  | n + 1 => wrap n (tower wrap base n)

theorem everywhere_tower {P : Schema → Prop} {wrap : Nat → Schema → Schema} {base : Schema}
    (bottom : Everywhere P base)
    (level : ∀ n s, s = tower wrap base n → Everywhere P s → Everywhere P (wrap n s)) (n : Nat) :
    Everywhere P (tower wrap base n) := by
  induction n with
  | zero => exact bottom
  | succ n ih => exact level n _ rfl ih

theorem height_tower {wrap : Nat → Schema → Schema} {base : Schema} {step : Nat}
    (level : ∀ n s, (wrap n s).height = s.height + step) (n : Nat) :
    (tower wrap base n).height = base.height + step * n := by
  induction n with
  | zero => rfl
  | succ n ih =>
    rw [tower, level, ih, Nat.mul_succ]
    omega

theorem descends_tower {wrap wrap' : Nat → Schema → Schema} {base base' : Schema}
    (calls steps : Nat) (bottom : Descends 0 0 base base')
    (level : ∀ n more depth s t, Descends more depth s t →
      Descends (calls + more) (depth + steps) (wrap n s) (wrap' n t)) (n : Nat) :
    Descends (calls * n) (steps * n) (tower wrap base n) (tower wrap' base' n) := by
  induction n with
  | zero => exact bottom
  | succ n ih =>
    have above := level n _ _ _ _ ih
    rwa [Nat.add_comm calls, ← Nat.mul_succ, ← Nat.mul_succ] at above

/-! ## Tuples inside each other -/

/-- **`tuples stride first n`** — so many tuples of one item inside each other, around a node for
text.  Their identities are `first` and every `stride`-th one after it. -/
def tuples (stride first : Nat) : Nat → Schema :=
  tower (fun n s => .tuple (.made (stride * (n + 1) + first)) [s]) (.plain (.made first) .string)

theorem tuples_wellFormed (stride first n : Nat) : (tuples stride first n).WellFormed := by
  refine everywhere_tower ?_ (fun n s _ hs => ?_) n
  · exact everywhere_plain.mpr ⟨⟨first, rfl⟩, trivial⟩
  · exact everywhere_tuple.mpr ⟨⟨⟨_, rfl⟩, trivial⟩, List.forall_mem_singleton.mpr hs⟩

theorem tuples_livesIn {heap : Heap} {stride first : Nat}
    (node : ∀ n, heap.node (stride * n + first) = tuples stride first n) (n : Nat) :
    (tuples stride first n).LivesIn heap := by
  refine everywhere_tower ?_ (fun n s same hs => ?_) n
  · refine everywhere_plain.mpr ⟨fun m hm => ?_, nofun⟩
    cases hm
    have bottom := node 0
    rwa [Nat.mul_zero, Nat.zero_add] at bottom
  · refine everywhere_tuple.mpr ⟨⟨fun m hm => ?_, nofun⟩, List.forall_mem_singleton.mpr hs⟩
    cases hm
    subst same
    exact node (n + 1)

theorem tuples_height (stride first n : Nat) : (tuples stride first n).height = n := by
  have level (n : Nat) (s : Schema) :
      (tuple (.made (stride * (n + 1) + first)) [s]).height = s.height + 1 := by
    simp [height, heightOver]
  rw [tuples, height_tower level n]
  simp [height]

theorem descends_tuples {stride first first' : Nat} (apart : first ≠ first') (n : Nat) :
    Descends (5 * n) n (tuples stride first n) (tuples stride first' n) := by
  have down : Descends (5 * n) (1 * n) (tuples stride first n) (tuples stride first' n) := by
    refine descends_tower 5 1 (.text ?_) (fun n more depth s t below => ?_) n
    · simpa [Ident.same] using apart
    · refine .down (tuple_comesDownTo ?_) below
      simpa [Ident.same] using apart
  rwa [Nat.one_mul] at down

theorem tuples_descend (n : Nat) : Descends (5 * n) n (tuples 2 0 n) (tuples 2 1 n) :=
  descends_tuples (by decide) n

end Schema

end Conformance
