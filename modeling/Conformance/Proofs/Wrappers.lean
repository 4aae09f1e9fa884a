/-
# Conformance.Proofs.Wrappers — stacks of wrappers, on either side.

Four rules of the table look at wrappers, two on each side.  As a target, a wrapper takes what
stands for its absence and otherwise hands the source on to its inner node; as a source, it asks for
its inner node and for a node that stands for its absence.  So a stack of wrappers is peeled off
from the outside, whatever order its two sorts stand in: what is left is the node inside, and one
more question for each sort that occurs.

The node that stands for absence is made by the rule and is the same as no other.  Any node of its
kind can take its place, as long as it is not found in the target by identity (`agrees_check_plain`).
-/
import Conformance.Proofs.Descent
import Conformance.Proofs.Precedence
import Conformance.Proofs.Room

namespace Conformance

namespace Wrapper

/-- The rule for a wrapper as target. -/
def targetRule : Wrapper → Rule
  | .optional => .optionalTarget
  | .nullable => .nullableTarget

/-- The rule for a wrapper as source. -/
def sourceRule : Wrapper → Rule
  | .optional => .optionalSource
  | .nullable => .nullableSource

section Layers

variable {w : List (Ident × Wrapper)}

theorem exists_absence_iff {k : Option Kind} :
    (∃ layer ∈ w, k = some layer.2.absence.kind) ↔
      k = some .undefined ∧ .optional ∈ w.map Prod.snd ∨
        k = some .null ∧ .nullable ∈ w.map Prod.snd := by
  constructor
  · rintro ⟨⟨i, wrapper⟩, mem, rfl⟩
    have kind := List.mem_map_of_mem (f := Prod.snd) mem
    cases wrapper with
    | optional => exact .inl ⟨rfl, kind⟩
    | nullable => exact .inr ⟨rfl, kind⟩
  · rintro (⟨rfl, kind⟩ | ⟨rfl, kind⟩)
    · obtain ⟨⟨i, _⟩, mem, rfl⟩ := List.mem_map.mp kind
      exact ⟨_, mem, rfl⟩
    · obtain ⟨⟨i, _⟩, mem, rfl⟩ := List.mem_map.mp kind
      exact ⟨_, mem, rfl⟩

theorem forall_layers_iff (P : Wrapper → Prop) :
    (∀ layer ∈ w, P layer.2) ↔
      (.optional ∈ w.map Prod.snd → P .optional) ∧ (.nullable ∈ w.map Prod.snd → P .nullable) := by
  rw [← List.forall_mem_map (f := Prod.snd) (P := P)]
  constructor
  · intro h
    exact ⟨h .optional, h .nullable⟩
  · intro h wrapper mem
    cases wrapper with
    | optional => exact h.1 mem
    | nullable => exact h.2 mem

end Layers

end Wrapper

namespace Schema

/-- **`stacked w s`** — a stack of wrappers around a node, the outermost first. -/
def stacked (w : List (Ident × Wrapper)) (s : Schema) : Schema :=
  w.foldr (fun layer inner => .wrap layer.1 layer.2 inner) s

/-- The kinds that a target may have for a wrapper to be asked as a source. -/
def IsPlainTarget (b : Schema) : Prop :=
  ∀ kind ∈ [Kind.optional, .nullable, .any, .unknown], b.kind? ≠ some kind

/-! ## One wrapper in the relation -/

section Relation

variable {a b t x : Schema} {i : Ident} {w : Wrapper}

theorem chosen_targetRule (known : a.kind? ≠ some .unknown) (bottom : a.isBottom = false) :
    Rule.chosen false a.kind? (some w.kind) = w.targetRule := by
  unfold isBottom at bottom
  revert known bottom
  cases a.kind? with
  | none => cases w <;> exact fun _ _ => rfl
  | some kind => cases w <;> cases kind <;> simp <;> rfl

theorem chosen_sourceRule (hb : b.IsPlainTarget) :
    Rule.chosen false (some w.kind) b.kind? = w.sourceRule := by
  unfold IsPlainTarget at hb
  revert hb
  cases b.kind? with
  | none => cases w <;> exact fun _ => rfl
  | some kind => cases w <;> cases kind <;> simp <;> rfl

theorem accepts_targetRule {P : Schema → Schema → Prop} :
    Rule.Accepts P w.targetRule a (.wrap i w t) ↔ a.kind? = some w.absence.kind ∨ P a t := by
  have inside : (wrap i w t).inside? w = some t := if_pos rfl
  cases w <;> simp only [Wrapper.targetRule, Rule.Accepts, Rule.IntoWrapper, inside]

theorem fits_into_wrapper (known : a.kind? ≠ some .unknown) (apart : a.id.same i = false) :
    Fits a (.wrap i w t) ↔ a.kind? = some w.absence.kind ∨ Fits a t := by
  cases bottom : a.isBottom with
  | true => exact iff_of_true (fits_of_isBottom bottom) (.inr (fits_of_isBottom bottom))
  | false =>
    rw [fits_by (b := .wrap i w t) w.targetRule apart (chosen_targetRule known bottom)]
    exact accepts_targetRule

theorem inside?_eq_none (hb : b.IsPlainTarget) : b.inside? w = none := by
  cases inside : b.inside? w with
  | none => rfl
  | some inner =>
    obtain ⟨j, rfl⟩ := eq_wrap_of_inside? inside
    refine absurd rfl (hb w.kind ?_)
    cases w <;> simp [Wrapper.kind]

theorem fits_from_wrapper (hb : b.IsPlainTarget) (apart : i.same b.id = false) :
    Fits (.wrap i w x) b ↔ Fits x b ∧ Fits w.probe b := by
  have inside : (wrap i w x).inside? w = some x := if_pos rfl
  rw [fits_by (a := .wrap i w x) w.sourceRule apart (chosen_sourceRule hb)]
  cases w <;>
    simp only [Wrapper.sourceRule, Rule.Accepts, Rule.FromWrapper, inside, inside?_eq_none hb]

end Relation

end Schema

/-! ## One wrapper in a run -/

/-- A wrapper as target hands on a source that does not stand for absence. -/
theorem Rule.decide_targetRule {sub : Compare} {a t : Schema} {i : Ident} {w : Wrapper}
    (other : a.kind? ≠ some w.absence.kind) :
    Rule.decide sub a.value (Schema.wrap i w t).value w.targetRule =
      some <$> sub a.value t.value := by
  have asked : wrapperTarget w.kind w.absence.kind sub a.value (Schema.wrap i w t).value =
      some <$> sub a.value t.value := by
    rw [wrapperTarget, Schema.isOf_value, Schema.isOf_value, if_pos (by simp [Schema.kind?]),
      if_neg (by simpa using other), Schema.wrapped?_value]
  cases w <;> exact asked

namespace Policy

open Schema

variable {p : Policy} {a b t x : Schema} {i : Ident} {w : Wrapper} {n room : Nat} {depth : Int}

/-- A source that does not stand for absence is handed on to the inner node. -/
theorem outcome_check_into_wrapper (known : a.kind? ≠ some .unknown) (bottom : a.isBottom = false)
    (other : a.kind? ≠ some w.absence.kind) (apart : a.id.same i = false)
    (space : p.callsFor a.value (wrap i w t).value ≤ room) :
    (p.check (n + 1) room depth a.value (wrap i w t).value).outcome =
      (p.check n (room - w.targetRule.held) (depth + 1) a.value t.value).outcome := by
  have chosen : a.rule (wrap i w t) = w.targetRule := by
    rw [Schema.rule, show a.id.same (wrap i w t).id = false from apart]
    exact chosen_targetRule known bottom
  refine check_outcome space ?_
  rw [chosen]
  exact Rule.decide_targetRule other

/-- The inner node is asked about first, and then what stands for absence. -/
theorem outcome_check_from_wrapper (hb : b.IsPlainTarget) (apart : i.same b.id = false)
    (space : p.callsFor (wrap i w x).value b.value ≤ room) :
    (p.check (n + 1) room depth (wrap i w x).value b.value).outcome =
      (Run.both (p.check n (room - w.sourceRule.held) (depth + 1) x.value b.value)
        (p.check n (room - w.sourceRule.held) (depth + 1) w.probe.value b.value)).outcome := by
  have chosen : (wrap i w x).rule b = w.sourceRule := by
    rw [Schema.rule, show (wrap i w x).id.same b.id = false from apart]
    exact chosen_sourceRule hb
  refine check_outcome space ?_
  rw [chosen]
  have asked (sub : Compare) : Rule.wrapperSource w.kind w.probe.value sub (wrap i w x).value
      b.value = some <$> Run.both (sub x.value b.value) (sub w.probe.value b.value) := by
    have other : b.kind? ≠ some w.kind := hb w.kind (by cases w <;> simp [Wrapper.kind])
    rw [Rule.wrapperSource, isOf_value, isOf_value, if_pos (by simp [kind?]), wrapped?_value]
    exact if_neg (by simpa using other)
  cases w <;> exact asked _

/-- Tops and bottoms are seen on the spot. -/
theorem outcome_check_topBottom (h : b.isTop = true ∨ a.isBottom = true)
    (space : p.callsFor a.value b.value ≤ room) :
    (p.check (n + 1) room depth a.value b.value).outcome = .ok true := by
  cases same : a.id.same b.id with
  | true => exact outcome_check_same same space
  | false =>
    have chosen : a.rule b = .topBottom := by
      rw [Schema.rule, same]
      refine Rule.chosen_topBottom ?_
      rcases h with h | h <;> rcases Bool.or_eq_true_iff.mp h with kind | kind <;>
        simp [Rule.applies, kind]
    have yes : (b.isTop || a.isBottom) = true := Bool.or_eq_true_iff.mpr h
    refine check_outcome (y := pure true) space ?_
    rw [chosen, Rule.decide, Rule.topBottomOf_value (h.imp_right .inl), yes]
    rfl

section Deep

variable {stack : Stack} {deepest : Int} {trace : Bool}

/-- With levels enough, a run that holds its calls answers yes to a pair of the relation. -/
theorem outcome_check_of_fits (enough : a.height + b.height < n)
    (held : ¬ ((upTo stack deepest trace).check n room depth a.value b.value).Exhausted)
    (fits : Fits a b) :
    ((upTo stack deepest trace).check n room depth a.value b.value).outcome = .ok true := by
  have tells : Run.Tells (fun e => e = .stackExhausted)
      ((upTo stack deepest trace).check n room depth a.value b.value) (Assignable n a b) :=
    check_tells rfl fun _ sort => by cases sort
  rw [Run.Tells] at tells
  split at tells
  · rename_i v answer
    rw [answer, tells.mpr ((assignable_iff_fits enough).mpr fits)]
  · rename_i e fault
    rw [tells] at fault
    exact absurd fault held

/-- A comparison that is not given up had room to ask about its pair. -/
theorem space_of_not_overflows (nonneg : 0 ≤ deepest)
    (held : ¬ (upTo stack deepest trace).Overflows a.value b.value) :
    (upTo stack deepest trace).callsFor a.value b.value ≤ stack.whole := by
  refine Nat.le_of_not_lt fun short => held ?_
  rw [overflows_iff nonneg]
  exact check_of_short short

/-- A bottom lists nothing and needs no look at the target. -/
theorem not_overflows_of_isBottom (bottom : a.isBottom = true) (nonneg : 0 ≤ deepest) :
    ¬ (upTo stack deepest trace).Overflows a.value b.value := by
  have nothing : a.listed = [] := by
    rcases Bool.or_eq_true_iff.mp bottom with kind | kind <;>
      obtain ⟨i, rfl⟩ := form_of_kind? (beq_iff_eq.mp kind) <;> rfl
  have ample := stack.ample
  have space : (upTo stack deepest trace).callsFor a.value b.value ≤ stack.whole :=
    space_of_nothing nothing (show stack.most ≤ stack.whole by omega)
  rw [overflows_iff nonneg, outcome_check_topBottom (.inr bottom) space]
  intro exhausted
  cases exhausted

theorem not_overflows_into_wrapper (known : a.kind? ≠ some .unknown)
    (other : a.kind? ≠ some w.absence.kind) (apart : a.id.same i = false)
    (deep : (a.height + (wrap i w t).height : Int) ≤ deepest)
    (held : ¬ (upTo stack deepest trace).Overflows a.value (wrap i w t).value) :
    ¬ (upTo stack deepest trace).Overflows a.value t.value := by
  have nonneg : 0 ≤ deepest := by omega
  cases bottom : a.isBottom with
  | true => exact not_overflows_of_isBottom bottom nonneg
  | false =>
    have lower : t.height < (wrap i w t).height := height_lt_of_mem (.head _)
    have space := space_of_not_overflows nonneg held
    rw [overflows_iff nonneg,
      outcome_check_into_wrapper known bottom other apart space] at held
    exact not_overflows_below w.targetRule deep (by omega) held

/-- What a wrapper as source asks about is not given up if the whole is not; it asks about absence
if its inner node conforms. -/
theorem not_overflows_from_wrapper (hb : b.IsPlainTarget) (apart : i.same b.id = false)
    (deep : ((wrap i w x).height + b.height : Int) ≤ deepest)
    (held : ¬ (upTo stack deepest trace).Overflows (wrap i w x).value b.value) :
    ¬ (upTo stack deepest trace).Overflows x.value b.value ∧
      (Fits x b → ¬ (upTo stack deepest trace).Overflows w.probe.value b.value) := by
  have nonneg : 0 ≤ deepest := by omega
  have lower : x.height < (wrap i w x).height := height_lt_of_mem (.head _)
  have flat : w.probe.height = 0 := rfl
  have space := space_of_not_overflows nonneg held
  rw [overflows_iff nonneg, outcome_check_from_wrapper hb apart space,
    Run.both, Run.error_bind, not_or, not_exists] at held
  obtain ⟨first, second⟩ := held
  refine ⟨not_overflows_below w.sourceRule deep (by omega) first, fun fits => ?_⟩
  have yes : ((upTo stack deepest trace).check deepest.toNat (stack.whole - w.sourceRule.held)
      (0 + 1) x.value b.value).outcome = .ok true :=
    outcome_check_of_fits (by omega) first fits
  exact not_overflows_below w.sourceRule deep (by omega) fun exhausted =>
    second true ⟨yes, exhausted⟩

/-! ## Stacks -/

/-- A stack as target: the node inside takes the source, or the source stands for an absence. -/
theorem conforms_into_stack {w : List (Ident × Wrapper)} (known : a.kind? ≠ some .unknown)
    (apart : ∀ layer ∈ w, a.id.same layer.1 = false)
    (deep : (a.height + (stacked w t).height : Int) ≤ deepest)
    (held : ¬ (upTo stack deepest trace).Overflows a.value (stacked w t).value) :
    ((upTo stack deepest trace).conforms a.value (stacked w t).value).outcome = .ok true ↔
      ((upTo stack deepest trace).conforms a.value t.value).outcome = .ok true ∨
        ∃ layer ∈ w, a.kind? = some layer.2.absence.kind := by
  -- By induction on the stack; a source that stands for the outermost absence goes no further.
  induction w with
  | nil => simp [stacked]
  | cons layer rest ih =>
    rw [List.forall_mem_cons] at apart
    have lower : (stacked rest t).height < (stacked (layer :: rest) t).height :=
      height_lt_of_mem (.head _)
    have one := fits_into_wrapper (w := layer.2) (t := stacked rest t) known apart.1
    rw [List.exists_mem_cons_iff]
    by_cases absent : a.kind? = some layer.2.absence.kind
    · refine iff_of_true ?_ (.inr (.inl absent))
      exact (conforms_eq_true_iff deep).mpr ⟨one.mpr (.inl absent), held⟩
    · have heldRest :=
        not_overflows_into_wrapper (t := stacked rest t) known absent apart.1 deep held
      have deepRest : (a.height + (stacked rest t).height : Int) ≤ deepest := by omega
      rw [or_iff_right absent] at one
      rw [or_iff_right absent, ← ih apart.2 deepRest heldRest, conforms_eq_true_iff deep,
        conforms_eq_true_iff deepRest, and_iff_left held, and_iff_left heldRest]
      exact one

/-- A stack as source: the node inside conforms, and so does what stands for each absence, or a node
that conforms where this does. -/
theorem conforms_from_stack {w : List (Ident × Wrapper)} {standIn : Wrapper → Schema}
    (hb : b.IsPlainTarget) (apart : ∀ layer ∈ w, layer.1.same b.id = false)
    (deep : ((stacked w x).height + b.height : Int) ≤ deepest)
    (alike : ∀ k : Wrapper, ¬ (upTo stack deepest trace).Overflows k.probe.value b.value →
      ((upTo stack deepest trace).conforms (standIn k).value b.value).outcome =
        ((upTo stack deepest trace).conforms k.probe.value b.value).outcome)
    (held : ¬ (upTo stack deepest trace).Overflows (stacked w x).value b.value) :
    ((upTo stack deepest trace).conforms (stacked w x).value b.value).outcome = .ok true ↔
      ((upTo stack deepest trace).conforms x.value b.value).outcome = .ok true ∧
        ∀ layer ∈ w, ((upTo stack deepest trace).conforms (standIn layer.2).value
          b.value).outcome = .ok true := by
  -- By induction on the stack; absence is asked about where the stack below conforms.
  induction w with
  | nil => simp [stacked]
  | cons layer rest ih =>
    rw [List.forall_mem_cons] at apart
    have lower : (stacked rest x).height < (stacked (layer :: rest) x).height :=
      height_lt_of_mem (.head _)
    have flat : layer.2.probe.height = 0 := rfl
    have deepRest : ((stacked rest x).height + b.height : Int) ≤ deepest := by omega
    have deepProbe : (layer.2.probe.height + b.height : Int) ≤ deepest := by omega
    have one := fits_from_wrapper (w := layer.2) (x := stacked rest x) hb apart.1
    obtain ⟨heldRest, heldProbe⟩ :=
      not_overflows_from_wrapper (x := stacked rest x) hb apart.1 deep held
    have probe (inner : Fits (stacked rest x) b) :
        ((upTo stack deepest trace).conforms (standIn layer.2).value b.value).outcome = .ok true ↔
          Fits layer.2.probe b := by
      have heldProbe := heldProbe inner
      rw [alike layer.2 heldProbe, conforms_eq_true_iff deepProbe, and_iff_left heldProbe]
    rw [List.forall_mem_cons, and_left_comm, ← ih apart.2 deepRest heldRest,
      conforms_eq_true_iff deep, conforms_eq_true_iff deepRest, and_iff_left held,
      and_iff_left heldRest]
    constructor
    · intro fits
      obtain ⟨inner, absent⟩ := one.mp fits
      exact ⟨(probe inner).mpr absent, inner⟩
    · rintro ⟨absent, inner⟩
      exact one.mpr ⟨inner, (probe inner).mp absent⟩

end Deep

end Policy

/-! ## Nodes that stand for absence -/

namespace Schema

/-- **`Passes i sort b`** — no node of the tree is taken for the node without parts that has the
identity `i`, unless that makes no difference: what stands for the undefined value conforms to any
other such node. -/
def Passes (i : Ident) (sort : Plain) (b : Schema) : Prop :=
  Everywhere (fun s => i.same s.id = true → sort = .undefined ∧ s.kind? = some .undefined) b

end Schema

namespace Rule

open Schema

section Plain

variable {sub sub' : Compare} {i j : Ident} {sort : Plain} {b : Schema}
  (agree : ∀ c ∈ b.children,
    (sub (plain i sort).value c.value).Agrees (sub' (plain j sort).value c.value))

include agree

theorem agrees_wrapperTarget (w : Wrapper) :
    (wrapperTarget w.kind w.absence.kind sub (plain i sort).value b.value).Agrees
      (wrapperTarget w.kind w.absence.kind sub' (plain j sort).value b.value) := by
  rw [wrapperTarget, wrapperTarget, wrapped?_eq_inside?, isOf_value, isOf_value, isOf_value]
  split
  · show (if (some sort.kind == some w.absence.kind) = true then _ else _ : Run _).Agrees
      (if (some sort.kind == some w.absence.kind) = true then _ else _ : Run _)
    split
    · exact fun _ => rfl
    · cases inside : b.inside? w with
      | none => exact fun _ => rfl
      | some inner => exact (agree inner (mem_children_of_inside? inside)).map some
  · exact fun _ => rfl

theorem agrees_unionTargetOf :
    (unionTargetOf sub (plain i sort).value b.value).Agrees
      (unionTargetOf sub' (plain j sort).value b.value) := by
  by_cases hb : b.kind? = some .union
  · obtain ⟨k, options, rfl⟩ := form_of_kind? hb
    rw [unionTargetOf, unionTargetOf, unionOptions_value]
    refine .map some (.anyM ?_)
    rw [List.forall_mem_map]
    exact agree
  · rw [unionTargetOf, unionTargetOf, isOf_value, if_neg (by simpa using hb),
      if_neg (by simpa using hb)]
    exact fun _ => rfl

theorem agrees_intersectionTargetOf :
    (intersectionTargetOf sub (plain i sort).value b.value).Agrees
      (intersectionTargetOf sub' (plain j sort).value b.value) := by
  by_cases hb : b.kind? = some .intersection
  · obtain ⟨k, left, right, rfl⟩ := form_of_kind? hb
    rw [intersectionTargetOf, intersectionTargetOf, leftSide?_value, rightSide?_value]
    refine .map some (.both (agree left ?_) (agree right ?_))
    · simp [children]
    · simp [children]
  · rw [intersectionTargetOf, intersectionTargetOf, isOf_value, if_neg (by simpa using hb),
      if_neg (by simpa using hb)]
    exact fun _ => rfl

/-- A rule tells two nodes without parts apart by identity only. -/
theorem agrees_decide_plain {r : Rule} (hi : r ≠ .identity) (hc : r ≠ .customPair) :
    (Rule.decide sub (plain i sort).value b.value r).Agrees
      (Rule.decide sub' (plain j sort).value b.value r) := by
  cases r with
  | identity => exact absurd rfl hi
  | customPair => exact absurd rfl hc
  | optionalTarget => exact agrees_wrapperTarget agree .optional
  | nullableTarget => exact agrees_wrapperTarget agree .nullable
  | unionTarget => exact agrees_unionTargetOf agree
  | intersectionTarget => exact agrees_intersectionTargetOf agree
  | topBottom => exact fun _ => rfl
  | literalSource => exact fun _ => rfl
  | enumSource => exact fun _ => rfl
  | primitivePair => exact fun _ => rfl
  | undefinedSource => exact fun _ => rfl
  | undefinedSourceNullUnion => exact fun _ => rfl
  | unionToArray => exact fun _ => rfl
  | primitiveFallback => exact fun _ => rfl
  | otherwise => exact fun _ => rfl
  | _ => cases sort <;> exact fun _ => rfl

end Plain

end Rule

namespace Policy

open Schema

variable {p : Policy} {n room : Nat} {depth : Int} {j : Ident} {sort : Plain} {b : Schema}

/-- Comparisons agree if the rule that has the say answers alike, and the second takes no more calls
to ask about. -/
theorem agrees_check_of_decide {a a' b : Value} {r : Rule}
    (fewer : p.callsFor a' b ≤ p.callsFor a b)
    (ha : Rule.chosen (a.same b) a.kind? b.kind? = r)
    (ha' : Rule.chosen (a'.same b) a'.kind? b.kind? = r)
    (agree : (Rule.decide (p.check n (room - r.held) (depth + 1)) a b r).Agrees
      (Rule.decide (p.check n (room - r.held) (depth + 1)) a' b r)) :
    (p.check (n + 1) room depth a b).Agrees (p.check (n + 1) room depth a' b) := by
  by_cases short : room < p.callsFor a b
  · exact fun held => absurd (check_of_short short) held
  have space := Nat.le_of_not_lt short
  obtain ⟨answer, decides, whole⟩ := @check_eq_chosen p n room depth a b space
  obtain ⟨answer', decides', whole'⟩ :=
    @check_eq_chosen p n room depth a' b (Nat.le_trans fewer space)
  rw [ha] at decides
  rw [ha'] at decides'
  rw [decides, decides'] at agree
  rw [whole, whole']
  exact agree.of_map.bind fun _ _ => rfl

/-- A node without parts takes no more calls to ask about than one that is the same as no other. -/
theorem callsFor_plain_le : p.callsFor (plain j sort).value b.value ≤
    p.callsFor (plain .transient sort).value b.value := by
  have both := callsFor_le_iff.mp (Nat.le_refl (p.callsFor (plain .transient sort).value b.value))
  have apart : (plain .transient sort).value.same b.value = false := same_value _ _
  have pair := ((Stack.calls_le_iff apart).mp both.1).1
  refine callsFor_le_iff.mpr ⟨?_, both.2⟩
  cases same : (plain j sort).value.same b.value with
  | true =>
    rw [Stack.calls, if_pos same]
    exact Nat.le_trans (p.stack.same_le _ _) pair
  | false => exact (Stack.calls_le_iff same).mpr ⟨pair, fun v hv => by cases sort <;> cases hv⟩

/-- The undefined value conforms to itself, at one node or two. -/
theorem outcome_check_undefined (hb : b.kind? = some .undefined)
    (space : p.callsFor (plain j .undefined).value b.value ≤ room) :
    (p.check (n + 1) room depth (plain j .undefined).value b.value).outcome = .ok true := by
  cases same : j.same b.id with
  | true => exact outcome_check_same same space
  | false =>
    obtain ⟨k, rfl⟩ := form_of_kind? hb
    have chosen : (plain j .undefined).rule (plain k .undefined) = .undefinedSource := by
      rw [Schema.rule, show (plain j .undefined).id.same (plain k .undefined).id = false from same]
      rfl
    refine check_outcome (y := pure true) space ?_
    rw [chosen]
    rfl

/-- **A node without parts stands in for the one that a rule makes**, where no node of the target is
taken for it. -/
theorem agrees_check_plain (hj : b.Passes j sort) :
    (p.check n room depth (plain .transient sort).value b.value).Agrees
      (p.check n room depth (plain j sort).value b.value) := by
  -- By induction on the levels; further pairs have parts of the target for targets.
  induction n generalizing room depth b with
  | zero =>
    intro _
    show (p.exceeded room _ _).outcome = (p.exceeded room _ _).outcome
    unfold exceeded
    split
    · rfl
    · split <;> rfl
  | succ n ih =>
    by_cases known : sort = .undefined ∧ b.kind? = some .undefined
    · obtain ⟨rfl, hb⟩ := known
      by_cases short : room < p.callsFor (plain .transient .undefined).value b.value
      · exact fun held => absurd (check_of_short short) held
      · have space := Nat.le_of_not_lt short
        intro _
        rw [outcome_check_undefined hb space,
          outcome_check_undefined hb (Nat.le_trans callsFor_plain_le space)]
    · have apart : j.same b.id = false := Bool.eq_false_iff.mpr fun same => known (hj.here same)
      have chosen {k : Ident} (apart : k.same b.id = false) :
          Rule.chosen ((plain k sort).value.same b.value) (plain k sort).value.kind?
            b.value.kind? = Rule.chosen false (some sort.kind) b.kind? := by
        rw [same_value, kind?_value, kind?_value,
          show (plain k sort).id.same b.id = false from apart]
        rfl
      have applies : (Rule.chosen false (some sort.kind) b.kind?).applies false (some sort.kind)
          b.kind? = true := Rule.applies_of_chosen rfl
      refine agrees_check_of_decide callsFor_plain_le (chosen rfl) (chosen apart) ?_
      refine Rule.agrees_decide_plain (fun c hc => ih (hj.child hc)) ?_ ?_
      · intro identity
        rw [identity] at applies
        cases applies
      · intro custom
        rw [custom] at applies
        cases sort <;> cases applies

/-- So the answers are one, unless the comparison with the node that the rule makes is given up. -/
theorem conforms_plain (hj : b.Passes j sort)
    (held : ¬ p.Overflows (plain .transient sort).value b.value) :
    (p.conforms (plain j sort).value b.value).outcome =
      (p.conforms (plain .transient sort).value b.value).outcome := by
  have same := agrees_check_plain hj held
  have held' : ¬ p.Overflows (plain j sort).value b.value := by
    rw [Overflows, same]
    exact held
  rw [conforms_outcome_of_not_overflows held, conforms_outcome_of_not_overflows held', same]

section Heap

variable {heap : Heap} (hb : b.LivesIn heap)
include hb

theorem passes_undefined {u : Ident} (hu : (plain u .undefined).LivesIn heap) :
    b.Passes u .undefined := by
  refine hb.mono fun s keeps same => ⟨rfl, ?_⟩
  rw [← hu.here.eq_of_same keeps same]
  rfl

/-- A wrapper of a stack is no node of another kind. -/
theorem stack_apart {w : List (Ident × Wrapper)} {x : Schema} (hx : (stacked w x).LivesIn heap)
    (kinds : b.IsPlainTarget) : ∀ layer ∈ w, layer.1.same b.id = false := by
  induction w with
  | nil => exact fun layer mem => by cases mem
  | cons layer rest ih =>
    refine List.forall_mem_cons.mpr ⟨?_, ih (hx.child (.head _))⟩
    refine Bool.eq_false_iff.mpr fun same => ?_
    rw [← hx.here.eq_of_same hb.here same] at kinds
    refine kinds layer.2.kind ?_ rfl
    cases layer.2 <;> simp [Wrapper.kind]

end Heap

/-- **Stacks of wrappers.**  A stack as target takes what the node inside takes, the undefined value
if it holds an optional wrapper, and null if it holds a nullable one.  A stack as source conforms
where the node inside does, and where a node for the undefined value does if it holds an optional
wrapper, and one for null if it holds a nullable one.  The order of the wrappers is of no
importance.  All this is under the condition that the comparison with the stack is not given up. -/
theorem conforms_stacked (stack : Stack) (w : List (Ident × Wrapper)) (deepest : Int)
    (trace : Bool) :
    (∀ a t : Schema, a.kind? ≠ some .unknown → (∀ layer ∈ w, a.id.same layer.1 = false) →
      (a.height + (stacked w t).height : Int) ≤ deepest →
      (¬ (upTo stack deepest trace).Overflows a.value (stacked w t).value →
        ∃ v, ((upTo stack deepest trace).conforms a.value (stacked w t).value).outcome = .ok v ∧
          (v = true ↔ ((upTo stack deepest trace).conforms a.value t.value).outcome = .ok true ∨
            a.kind? = some .undefined ∧ .optional ∈ w.map Prod.snd ∨
            a.kind? = some .null ∧ .nullable ∈ w.map Prod.snd)) ∧
      (a.WellFormed →
        5 * (a.height + (stacked w t).height) + stack.most ≤ stack.whole ∨
          5 * (deepest + 1) + stack.most ≤ stack.whole →
        ¬ (upTo stack deepest trace).Overflows a.value (stacked w t).value)) ∧
    (∀ (heap : Heap) (x b : Schema) (u z : Ident),
      (∀ kind ∈ [Kind.optional, .nullable, .any, .unknown], b.kind? ≠ some kind) →
      (stacked w x).LivesIn heap → b.LivesIn heap → (plain u .undefined).LivesIn heap →
      Everywhere (fun s => z.same s.id = false) b →
      ((stacked w x).height + b.height : Int) ≤ deepest →
      (¬ (upTo stack deepest trace).Overflows (stacked w x).value b.value →
        ∃ v, ((upTo stack deepest trace).conforms (stacked w x).value b.value).outcome = .ok v ∧
          (v = true ↔ ((upTo stack deepest trace).conforms x.value b.value).outcome = .ok true ∧
            (.optional ∈ w.map Prod.snd →
              ((upTo stack deepest trace).conforms (plain u .undefined).value b.value).outcome =
                .ok true) ∧
            (.nullable ∈ w.map Prod.snd →
              ((upTo stack deepest trace).conforms (plain z .null).value b.value).outcome =
                .ok true))) ∧
      ((stacked w x).WellFormed →
        5 * ((stacked w x).height + b.height) + stack.most ≤ stack.whole ∨
          5 * (deepest + 1) + stack.most ≤ stack.whole →
        ¬ (upTo stack deepest trace).Overflows (stacked w x).value b.value)) := by
  refine ⟨?_, ?_⟩
  · intro a t known apart deep
    refine ⟨fun held => ?_, not_overflows_of_bound⟩
    obtain ⟨v, answer, -⟩ := conforms_tells deep held
    refine ⟨v, answer, ?_⟩
    have into := conforms_into_stack known apart deep held
    rw [answer, Except.ok.injEq, Wrapper.exists_absence_iff] at into
    exact into
  · intro heap x b u z kinds livesX livesB livesU fresh deep
    refine ⟨fun held => ?_, not_overflows_of_bound⟩
    obtain ⟨v, answer, -⟩ := conforms_tells deep held
    refine ⟨v, answer, ?_⟩
    have passes : b.Passes z .null := fresh.mono fun s apart same => absurd same (by simp [apart])
    let standIn : Wrapper → Schema
      | .optional => plain u .undefined
      | .nullable => plain z .null
    have alike (k : Wrapper) (heldProbe : ¬ (upTo stack deepest trace).Overflows k.probe.value
        b.value) : ((upTo stack deepest trace).conforms (standIn k).value b.value).outcome =
          ((upTo stack deepest trace).conforms k.probe.value b.value).outcome := by
      cases k with
      | optional => exact conforms_plain (passes_undefined livesB livesU) heldProbe
      | nullable => exact conforms_plain passes heldProbe
    have source := conforms_from_stack kinds (stack_apart livesB livesX kinds) deep alike held
    rw [answer, Except.ok.injEq, Wrapper.forall_layers_iff fun k =>
      ((upTo stack deepest trace).conforms (standIn k).value b.value).outcome = .ok true] at source
    exact source

/-- Null goes into a stack of three, and out of the same stack into a union that wraps text itself
and shares its node for the undefined value. -/
theorem stack_conforms_both_ways :
    let w := [(Ident.made 0, Wrapper.optional), (.made 1, .nullable), (.made 2, .optional)]
    let text : Schema := .plain (.made 3) .string
    let null (n : Nat) : Schema := .plain (.made n) .null
    let undefined : Schema := .plain (.made 4) .undefined
    let wrapped : Schema := .wrap (.made 5) .nullable text
    let b : Schema := .union (.made 6) [wrapped, undefined]
    ((upTo .standard 5 false).conforms (null 7).value (stacked w text).value).outcome = .ok true ∧
      ((upTo .standard 5 false).conforms (stacked w text).value b.value).outcome = .ok true := by
  intro w text null undefined wrapped b
  obtain ⟨target, source⟩ := conforms_stacked .standard w 5 false
  constructor
  · have into := target (null 7) text (by decide) (by decide) (by decide)
    obtain ⟨v, answer, iff⟩ := into.1 (into.2 (everywhere_plain.mpr ⟨⟨7, rfl⟩, trivial⟩) (.inl (by decide)))
    rw [answer, iff.mpr (.inr (.inr ⟨rfl, by decide⟩))]
  · have out := source (.ofNodes [stacked w text, stacked (w.drop 1) text, stacked (w.drop 2) text,
      text, undefined, wrapped, b]) text b (.made 4) (.made 7) (by decide) ?_ ?_ ?_ ?_ (by decide)
    · have wf : (stacked w text).WellFormed := by
        simp [w, text, stacked, WellFormed, IsSound, PartsSound, Schema.id]
      obtain ⟨v, answer, iff⟩ := out.1 (out.2 wf (.inl (by decide)))
      rw [answer, iff.mpr ⟨rfl, fun _ => rfl, fun _ => rfl⟩]
    · simp [LivesIn, w, stacked, text, Heap.Keeps, Schema.id, listed, Heap.ofNodes]
    · simp [LivesIn, w, stacked, text, undefined, wrapped, b, Heap.Keeps, Schema.id, listed,
        Heap.ofNodes]
    · simp [LivesIn, w, stacked, text, undefined, Heap.Keeps, Schema.id, listed, Heap.ofNodes]
    · simp [b, wrapped, text, undefined, Schema.id, Ident.same]

end Policy

/-! ## A stack without room -/

namespace Schema

/-- So many optional wrappers. -/
def optionals : Nat → List (Ident × Wrapper)
  | 0 => []
  | n + 1 => (.made (n + 2), .optional) :: optionals n

theorem comesDownTo_wrapper {i j : Ident} {w : Wrapper} {t : Schema} (apart : i.same j = false) :
    ComesDownTo 3 (plain i .string) (wrap j w t) (plain i .string) t := by
  have chosen : (plain i .string).rule (wrap j w t) = w.targetRule := by
    rw [rule, show (plain i .string).id.same (wrap j w t).id = false from apart]
    cases w <;> rfl
  refine ⟨slender_of_kinds apart rfl (by cases w <;> rfl), ?_, fun sub => ?_⟩
  · rw [chosen]
    cases w <;> rfl
  · rw [chosen]
    refine ⟨_, Rule.decide_targetRule ?_, rfl⟩
    cases w <;> simp [kind?, Plain.kind, Wrapper.absence]

theorem optionals_apart {n m : Nat} (h : m < 2) {layer : Ident × Wrapper}
    (mem : layer ∈ optionals n) : (Ident.made m).same layer.1 = false := by
  induction n with
  | zero => cases mem
  | succ n ih =>
    rcases List.mem_cons.mp mem with rfl | later
    · simp only [Ident.same, beq_eq_false_iff_ne]
      omega
    · exact ih later

theorem stacked_optionals_wellFormed (n : Nat) {t : Schema} (ht : t.WellFormed) :
    (stacked (optionals n) t).WellFormed := by
  induction n with
  | zero => exact ht
  | succ n ih => exact everywhere_wrap.mpr ⟨⟨⟨_, rfl⟩, trivial⟩, ih⟩

theorem height_stacked (w : List (Ident × Wrapper)) (t : Schema) :
    (stacked w t).height = w.length + t.height := by
  induction w with
  | nil => simp [stacked]
  | cons layer rest ih =>
    show (stacked rest t).height + 1 = _
    rw [ih, List.length_cons]
    omega

theorem length_optionals (n : Nat) : (optionals n).length = n := by
  induction n with
  | zero => rfl
  | succ n ih => exact congrArg (· + 1) ih

theorem descends_optionals (n : Nat) : Descends (3 * n) n (plain (.made 0) .string)
    (stacked (optionals n) (plain (.made 1) .string)) := by
  induction n with
  | zero => exact .text rfl
  | succ n ih =>
    have above := Descends.down (comesDownTo_wrapper (w := .optional) (j := .made (n + 2)) rfl) ih
    rwa [Nat.add_comm 3, ← Nat.mul_succ] at above

end Schema

namespace Policy

open Schema

/-- Two thousand optional wrappers as target: text conforms to the node inside, and the comparison
with the stack is given up. -/
theorem optionals_without_room :
    let a : Schema := .plain (.made 0) .string
    let t : Schema := .plain (.made 1) .string
    let w := optionals 2000
    a.WellFormed ∧ (stacked w t).WellFormed ∧ a.kind? ≠ some .unknown ∧
      (∀ layer ∈ w, a.id.same layer.1 = false) ∧
      (a.height + (stacked w t).height : Int) ≤ 100000 ∧
      ((upTo .standard 100000 false).conforms a.value t.value).outcome = .ok true ∧
      ((upTo .standard 100000 false).conforms a.value (stacked w t).value).outcome = .ok false := by
  intro a t w
  have sound (n : Nat) : (plain (.made n) .string).WellFormed :=
    everywhere_plain.mpr ⟨⟨n, rfl⟩, trivial⟩
  refine ⟨sound 0, stacked_optionals_wellFormed 2000 (sound 1), by decide,
    fun layer mem => optionals_apart (by decide) mem, ?_, rfl, ?_⟩
  · rw [height_stacked, length_optionals]
    decide
  · exact conforms_outcome_of_overflows
      (overflows_of_descends (descends_optionals 2000) (by decide) (by decide))

end Policy

end Conformance
