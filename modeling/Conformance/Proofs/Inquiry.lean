/-
# Conformance.Proofs.Inquiry — how a rule comes to its answer.

A rule gets the comparison of further pairs as a function and may do with it what it likes.  What it
does is to ask one question after the other: which pair it compares next, and what it says in the
end, follows from the answers so far.  `Inquiry clear may f` says this of a computation `f`, and that
it asks only questions that it `may` ask.  An inquiry reports nothing itself.  It breaks off by
itself only at a value that cannot be gone through, and not at all if `clear`.

`decide_inquires` says that every rule is an inquiry into pairs that are lower together than the
pair that it is asked about, for any two values whatever, and that these keep what holds throughout
the pair; `decision_inquires` says it of the whole table.  What a rule does to the records, the answer
and the faults of the comparison one level down is then said once, for inquiries.
-/
import Conformance.Check
import Conformance.Proofs.Legible

namespace Conformance

/-! ## Inquiries -/

/-- **`Inquiry clear may f`** — given the answers to questions, `f` asks one question after the
other, only such as it may ask, and goes on by the answers.  In the end it answers without a further
record, unless it breaks off at a value that cannot be gone through; it does not if `clear`. -/
inductive Inquiry {σ α : Type} (clear : Prop) (may : σ → Prop) :
    ((σ → Run Bool) → Run α) → Prop where
  /-- Nothing is left to ask. -/
  | answer (x : Except Fault α) : Reads clear x → Inquiry clear may fun _ => Logged.quiet x
  /-- A question is asked, and its answer decides how to go on. -/
  | ask (q : σ) (next : Bool → (σ → Run Bool) → Run α) : may q →
      (∀ v, Inquiry clear may (next v)) →
      Inquiry clear may fun sub => sub q >>= fun v => next v sub

namespace Inquiry

variable {σ α β : Type} {clear : Prop} {may may' : σ → Prop} {f g : (σ → Run Bool) → Run α}

/-- More may be asked. -/
theorem mono (hf : Inquiry clear may f) (h : ∀ q, may q → may' q) :
    Inquiry clear may' f := by
  induction hf with
  | answer x reads => exact .answer x reads
  | ask q next hq _ ih => exact .ask q next (h q hq) ih

/-- **`relates`** — a relation between runs that goes through sequencing goes from the answers over
to the inquiry. -/
theorem relates {R : Run Bool → Run Bool → Prop} {T : Run α → Run α → Prop}
    {sub sub' : σ → Run Bool} (hf : Inquiry clear may f)
    (quiet : ∀ x, T (Logged.quiet x) (Logged.quiet x))
    (bind : ∀ {x y f g}, R x y → (∀ v, T (f v) (g v)) → T (x >>= f) (y >>= g))
    (answers : ∀ q, may q → R (sub q) (sub' q)) : T (f sub) (f sub') := by
  induction hf with
  | answer x reads => exact quiet x
  | ask q next hq _ ih => exact bind (answers q hq) ih

protected theorem pure (a : α) : Inquiry clear may fun _ => (pure a : Run α) :=
  answer (.ok a) (.ok a)

theorem question {q : σ} (h : may q) : Inquiry clear may fun sub => sub q := by
  have asked : Inquiry clear may fun sub : σ → Run Bool => sub q >>= fun v => pure v :=
    ask q (fun v _ => pure v) h fun v => .pure v
  simpa only [bind_pure] using asked

/-- What is read first may be used in the questions that follow. -/
theorem read {x : Except Fault β} {g : β → (σ → Run Bool) → Run α} (reads : Reads clear x)
    (hg : ∀ b, x = .ok b → Inquiry clear may (g b)) :
    Inquiry clear may fun sub => Logged.quiet x >>= fun b => g b sub := by
  cases x with
  | ok b => exact hg b rfl
  | error e =>
    refine answer (.error e) ?_
    intro e' h
    cases h
    exact reads e rfl

protected theorem bind {g : α → (σ → Run Bool) → Run β} (hf : Inquiry clear may f)
    (hg : ∀ a, Inquiry clear may (g a)) :
    Inquiry clear may fun sub => f sub >>= fun a => g a sub := by
  induction hf with
  | answer x reads => exact read reads fun a _ => hg a
  | ask q next hq _ ih =>
    simp only [bind_assoc]
    exact ask q (fun v sub => next v sub >>= fun a => g a sub) hq ih

protected theorem map (φ : α → β) (hf : Inquiry clear may f) :
    Inquiry clear may fun sub => φ <$> f sub := by
  simp only [map_eq_pure_bind]
  exact hf.bind fun a => .pure (φ a)

protected theorem ite {c : Prop} [Decidable c] (hf : c → Inquiry clear may f)
    (hg : ¬ c → Inquiry clear may g) :
    Inquiry clear may fun sub => if c then f sub else g sub := by
  by_cases h : c
  · simp only [if_pos h]
    exact hf h
  · simp only [if_neg h]
    exact hg h

section Connectives

variable {f g : (σ → Run Bool) → Run Bool}

protected theorem both (hf : Inquiry clear may f) (hg : Inquiry clear may g) :
    Inquiry clear may fun sub => Run.both (f sub) (g sub) :=
  hf.bind fun _ => .ite (fun _ => hg) fun _ => .pure false

protected theorem either (hf : Inquiry clear may f) (hg : Inquiry clear may g) :
    Inquiry clear may fun sub => Run.either (f sub) (g sub) :=
  hf.bind fun _ => .ite (fun _ => .pure true) fun _ => hg

protected theorem allM {l : List β} {f : β → (σ → Run Bool) → Run Bool}
    (h : ∀ b ∈ l, Inquiry clear may (f b)) :
    Inquiry clear may fun sub => l.allM fun b => f b sub := by
  induction l with
  | nil => exact .pure true
  | cons b rest ih =>
    simp only [List.allM_cons]
    exact (h b List.mem_cons_self).both (ih fun c hc => h c (List.mem_cons_of_mem b hc))

protected theorem anyM {l : List β} {f : β → (σ → Run Bool) → Run Bool}
    (h : ∀ b ∈ l, Inquiry clear may (f b)) :
    Inquiry clear may fun sub => l.anyM fun b => f b sub := by
  induction l with
  | nil => exact .pure false
  | cons b rest ih =>
    simp only [List.anyM_cons]
    exact (h b List.mem_cons_self).either (ih fun c hc => h c (List.mem_cons_of_mem b hc))

end Connectives

/-- Questions may be put in other words. -/
theorem rephrase {τ : Type} {may' : τ → Prop} (words : σ → τ) (hf : Inquiry clear may f)
    (h : ∀ q, may q → may' (words q)) :
    Inquiry clear may' fun sub : τ → Run Bool => f fun q => sub (words q) := by
  induction hf with
  | answer x reads => exact answer x reads
  | ask q next hq _ ih =>
    exact ask (words q) (fun v sub => next v fun q => sub (words q)) (h q hq) ih

end Inquiry

/-! ## The rules -/

/-- **`Lower a b`** — the pairs that are lower together than the given one. -/
def Lower (a b : Value) (q : Value × Value) : Prop :=
  q.1.height + q.2.height < a.height + b.height

/-- **`Portable P`** — the nodes that rules build have the property: merged objects, and what stands
for absence. -/
structure Portable (P : Value → Prop) : Prop where
  merged : ∀ left right, P (Value.mergedObject left right)
  probe : ∀ k, P (.node .transient (.of k) [])

/-- **`Under v w`** — the second value lies lower than the first, and what holds throughout the first
holds throughout the second. -/
structure Under (v w : Value) : Prop where
  lower : w.height < v.height
  keeps : ∀ {P : Value → Prop}, Portable P → Throughout Value.beneath P v →
    Throughout Value.beneath P w

/-- **`Leaves r v w`** — a rule that goes on with `w` in place of `v` holds three calls, or leaves a
union for what lies beneath it. -/
def Leaves (r : Rule) (v w : Value) : Prop := r.held = 3 ∨ v.isOf .union = true ∧ w ∈ v.beneath

/-- **`Moves r a b q`** — how a rule comes from a pair to a lower one: on both sides, or on one. -/
inductive Moves (r : Rule) (a b : Value) : Value × Value → Prop where
  | both {x y : Value} : x.height < a.height → y.height < b.height → Moves r a b (x, y)
  | source {x : Value} : x.height < a.height → Leaves r a x → Moves r a b (x, b)
  | target {y : Value} : y.height < b.height → Leaves r b y → Moves r a b (a, y)

/-- **`Asked r a b`** — the pairs that a rule may ask about: it moves to them from the given one, and
what holds throughout the two of that holds throughout them. -/
structure Asked (r : Rule) (a b : Value) (q : Value × Value) : Prop where
  moves : Moves r a b q
  source : ∀ {P : Value → Prop}, Portable P → Throughout Value.beneath P a →
    Throughout Value.beneath P q.1
  target : ∀ {P : Value → Prop}, Portable P → Throughout Value.beneath P b →
    Throughout Value.beneath P q.2

theorem Asked.lower {r : Rule} {a b : Value} {q : Value × Value} (h : Asked r a b q) :
    Lower a b q := by
  unfold Lower
  cases h.moves with
  | both left right => exact Nat.add_lt_add left right
  | source left _ => exact Nat.add_lt_add_right left _
  | target right _ => exact Nat.add_lt_add_left right _

namespace Value

/-- Merged objects hold nothing but fields, and what stands for absence holds nothing. -/
theorem isLegible_portable : Portable IsLegible := by
  refine ⟨fun left right _ => ⟨?_, ?_⟩, fun k => isLegible_of_no_parts fun _ => rfl⟩
  · rintro p w (rfl | rfl) stored <;> cases stored
  · intro w stored
    cases stored

end Value

namespace Under

open Value

variable {v w left right : Value}

theorem clear (h : Under v w) (clear : v.IsClear) : w.IsClear := h.keeps isLegible_portable clear

theorem of_mem (h : w ∈ v.beneath) : Under v w := ⟨height_lt_of_mem h, fun _ held => held.of_mem h⟩

theorem whenPresent (omits : Bool) (h : Under v w) : Under v (w.whenPresent omits) := by
  rcases whenPresent_eq_or_mem omits w with same | deeper
  · rw [same]
    exact h
  · have lower := height_lt_of_mem deeper
    exact ⟨Nat.lt_trans lower h.lower, fun portable held => (h.keeps portable held).of_mem deeper⟩

/-- The merged object is no part of the source, but it is no higher than one. -/
theorem mergedObject (hl : Under v left) (hr : Under v right) :
    Under v (mergedObject left right) := by
  refine ⟨height_mergedObject_lt hl.lower hr.lower, fun portable held => ?_⟩
  refine .intro (portable.merged left right) fun w hw => ?_
  rcases mem_beneath_of_mergedObject hw with hw | hw
  · exact (hl.keeps portable held).of_mem hw
  · exact (hr.keeps portable held).of_mem hw

/-- What stands for absence has no parts, so it lies under whatever something lies under. -/
theorem probe (h : Under v w) (k : Kind) : Under v (.node .transient (.of k) []) :=
  ⟨Nat.lt_of_le_of_lt (Nat.zero_le _) h.lower, fun portable _ => .of_flat (portable.probe k) rfl⟩

end Under

namespace Rule

open Value

section Rules

variable {r : Rule} {a b : Value}

theorem asked_target {y : Value} (h : Under b y) (leaves : Leaves r b y) : Asked r a b (a, y) :=
  ⟨.target h.lower leaves, fun _ => id, h.keeps⟩

theorem asked_source {x : Value} (h : Under a x) (leaves : Leaves r a x) : Asked r a b (x, b) :=
  ⟨.source h.lower leaves, h.keeps, fun _ => id⟩

theorem asked_both {x y : Value} (hx : Under a x) (hy : Under b y) : Asked r a b (x, y) :=
  ⟨.both hx.lower hy.lower, hx.keeps, hy.keeps⟩

/-- Both values are clear. -/
def BothClear (a b : Value) : Prop := a.IsClear ∧ b.IsClear

theorem wrapperTarget_inquires (three : r.held = 3) (wrapper absence : Kind) :
    Inquiry (BothClear a b) (Asked r a b)
      fun sub => wrapperTarget wrapper absence (Function.curry sub) a b := by
  refine .ite (fun _ => .ite (fun _ => .pure _) fun _ => ?_) fun _ => .pure _
  cases inside : b.wrapped? wrapper with
  | none => exact .pure _
  | some inner =>
    have under := Under.of_mem (mem_beneath_of_wrapped? inside)
    exact (Inquiry.question (asked_target under (.inl three))).map some

theorem wrapperSource_inquires (three : r.held = 3) (wrapper absence : Kind) :
    Inquiry (BothClear a b) (Asked r a b) fun sub =>
      wrapperSource wrapper (.node .transient (.of absence) []) (Function.curry sub) a b := by
  refine .ite (fun _ => ?_) fun _ => .pure _
  cases inside : a.wrapped? wrapper with
  | none => exact .pure _
  | some inner =>
    have under := Under.of_mem (mem_beneath_of_wrapped? inside)
    refine .ite (fun _ => ?_) fun _ => ?_
    · cases inside' : b.wrapped? wrapper with
      | none => exact .pure _
      | some target =>
        have under' := Under.of_mem (mem_beneath_of_wrapped? inside')
        exact (Inquiry.question (asked_both under under')).map some
    · exact ((Inquiry.question (asked_source under (.inl three))).both
        (Inquiry.question (asked_source (under.probe absence) (.inl three)))).map some

theorem literalSourceOf_reads : Reads (BothClear a b) (literalSourceOf a b) := by
  unfold literalSourceOf
  split
  · exact .pure _
  refine ((literalValues_reads a).mono fun clear => clear.1.here).bind fun values _ => ?_
  split
  · exact .pure _
  split
  · exact ((literalValues_reads b).mono fun clear => clear.2.here).bind fun _ _ => .pure _
  split
  · exact ((enumValues_reads b).mono fun clear => clear.2.here).bind fun _ _ => .pure _
  split
  · exact .pure _
  split
  · refine ((unionOptions_reads b).mono fun clear => clear.2.here).bind fun options read => ?_
    exact ((allTaken_reads read values).mono And.right).bind fun _ _ => .pure _
  · exact .pure _

theorem enumSourceOf_reads : Reads (BothClear a b) (enumSourceOf a b) := by
  unfold enumSourceOf
  split
  · exact .pure _
  refine ((enumValues_reads a).mono fun clear => clear.1.here).bind fun values _ => ?_
  split
  · exact .pure _
  split
  · exact ((enumValues_reads b).mono fun clear => clear.2.here).bind fun _ _ => .pure _
  split
  · exact .pure _
  split
  · exact .pure _
  split
  · refine ((unionOptions_reads b).mono fun clear => clear.2.here).bind fun options read => ?_
    exact ((allTaken_reads read values).mono And.right).bind fun _ _ => .pure _
  · exact .pure _

theorem undefinedSourceOf_reads (option : Kind) :
    Reads (BothClear a b) (undefinedSourceOf option a b) := by
  unfold undefinedSourceOf
  split
  · exact .pure _
  split
  · exact .pure _
  split
  · exact ((unionOptions_reads b).mono fun clear => clear.2.here).bind fun _ _ => .pure _
  · exact .pure _

theorem arrayPairOf_inquires :
    Inquiry (BothClear a b) (Asked r a b) fun sub => arrayPairOf (Function.curry sub) a b := by
  refine .ite (fun _ => ?_) fun _ => .pure _
  cases hx : a.arrayElement? with
  | none => exact .pure _
  | some x =>
    cases hy : b.arrayElement? with
    | none => exact .pure _
    | some y =>
      have underX : Under a x := .of_mem (mem_beneath_of_held rfl hx)
      have underY : Under b y := .of_mem (mem_beneath_of_held rfl hy)
      exact (Inquiry.question (asked_both underX underY)).map some

/-- Only a union has options. -/
theorem leaves_option {v o : Value} {options : List Value} (read : v.unionOptions = .ok options)
    (ho : o ∈ options) : Leaves r v o := by
  refine .inr ⟨?_, mem_beneath_of_unionOptions read ho⟩
  unfold unionOptions at read
  split at read
  · assumption
  · cases read
    cases ho

/-- The options of the target are read first. -/
theorem readTarget {g : List Value → (Value × Value → Run Bool) → Run (Option Bool)}
    (hg : ∀ options, (∀ o ∈ options, Asked r a b (a, o)) →
      Inquiry (BothClear a b) (Asked r a b) (g options)) :
    Inquiry (BothClear a b) (Asked r a b)
      fun sub => Logged.quiet b.unionOptions >>= fun options => g options sub := by
  refine .read ((unionOptions_reads b).mono fun clear => clear.2.here) fun options read => ?_
  refine hg options fun o ho => ?_
  exact asked_target (.of_mem (mem_beneath_of_unionOptions read ho)) (leaves_option read ho)

theorem arrayToUnionOf_inquires :
    Inquiry (BothClear a b) (Asked r a b)
      fun sub => arrayToUnionOf (Function.curry sub) a b := by
  refine .ite (fun _ => readTarget fun options asked => ?_) fun _ => .pure _
  refine (Inquiry.anyM fun o ho => .ite (fun _ => ?_) fun _ => .pure false).map some
  exact .question (asked o ho)

theorem tuplePairOf_inquires :
    Inquiry (BothClear a b) (Asked r a b) fun sub => tuplePairOf (Function.curry sub) a b := by
  refine .ite (fun _ => ?_) fun _ => .pure _
  refine .read ((tupleItems?_reads a).mono fun clear => clear.1.here) fun left readL => ?_
  refine .read ((tupleItems?_reads b).mono fun clear => clear.2.here) fun right readR => ?_
  cases left with
  | none => exact .pure _
  | some xs =>
    cases right with
    | none => exact .pure _
    | some ys =>
      refine .ite (fun _ => (Inquiry.allM fun p hp => ?_).map some) fun _ => .pure _
      obtain ⟨hx, hy⟩ := List.of_mem_zip (a := p.1) (b := p.2) hp
      exact .question (asked_both (.of_mem (mem_beneath_of_tupleItems? readL hx))
        (.of_mem (mem_beneath_of_tupleItems? readR hy)))

theorem fieldConforms_inquires {field : Value × Value} (hf : field ∈ b.fields) :
    Inquiry (BothClear a b) (Asked r a b)
      fun sub => fieldConforms (Function.curry sub) a.fields field := by
  have underY : Under b field.2 := .of_mem (mem_beneath_of_mem_fields hf)
  refine .read ((omittable_reads field.2).mono fun clear => underY.clear clear.2) fun omits _ => ?_
  cases found : a.fields.find? field.1 with
  | none => exact .pure _
  | some property =>
    obtain ⟨key, hp⟩ := mem_of_find? found
    have underX : Under a property := .of_mem (mem_beneath_of_mem_fields hp)
    have compared : Inquiry (BothClear a b) (Asked r a b) fun sub =>
        Logged.quiet property.omittable >>= fun sourceOmits =>
          if (!omits && sourceOmits) = true then pure false
          else sub (property.whenPresent sourceOmits, field.2.whenPresent omits) := by
      refine .read ((omittable_reads property).mono fun clear => underX.clear clear.1)
        fun sourceOmits _ => ?_
      refine .ite (fun _ => .pure false) fun _ => .question ?_
      exact asked_both (underX.whenPresent sourceOmits) (underY.whenPresent omits)
    -- A field that is null counts as missing.
    cases property with
    | null => exact .pure _
    | _ => exact compared

theorem objectPairOf_inquires :
    Inquiry (BothClear a b) (Asked r a b) fun sub => objectPairOf (Function.curry sub) a b := by
  refine .ite (fun _ => (Inquiry.allM fun field hf => ?_).map some) fun _ => .pure _
  exact fieldConforms_inquires hf

theorem recordPairOf_inquires :
    Inquiry (BothClear a b) (Asked r a b) fun sub => recordPairOf (Function.curry sub) a b := by
  refine .ite (fun _ => ?_) fun _ => .pure _
  cases hk : a.recordKey? with
  | none => exact .pure _
  | some k =>
    cases hv : a.recordValue? with
    | none => exact .pure _
    | some v =>
      cases hl : b.recordKey? with
      | none => exact .pure _
      | some l =>
        cases hw : b.recordValue? with
        | none => exact .pure _
        | some w =>
          have keys : Asked r a b (k, l) := asked_both (.of_mem (mem_beneath_of_held rfl hk))
            (.of_mem (mem_beneath_of_held rfl hl))
          have values : Asked r a b (v, w) := asked_both (.of_mem (mem_beneath_of_held rfl hv))
            (.of_mem (mem_beneath_of_held rfl hw))
          exact ((Inquiry.question keys).both (Inquiry.question values)).map some

theorem unionSourceOf_inquires :
    Inquiry (BothClear a b) (Asked r a b) fun sub => unionSourceOf (Function.curry sub) a b := by
  refine .ite (fun _ => ?_) fun _ => .pure _
  refine .read ((unionOptions_reads a).mono fun clear => clear.1.here) fun options read => ?_
  refine .ite (fun _ => .pure _) fun _ => (Inquiry.allM fun o ho => ?_).map some
  exact .question
    (asked_source (.of_mem (mem_beneath_of_unionOptions read ho)) (leaves_option read ho))

theorem unionTargetOf_inquires :
    Inquiry (BothClear a b) (Asked r a b) fun sub => unionTargetOf (Function.curry sub) a b := by
  refine .ite (fun _ => readTarget fun options asked => ?_) fun _ => .pure _
  refine (Inquiry.anyM fun o ho => ?_).map some
  exact .question (asked o ho)

theorem intersectionSourceOf_inquires (three : r.held = 3) :
    Inquiry (BothClear a b) (Asked r a b)
      fun sub => intersectionSourceOf (Function.curry sub) a b := by
  refine .ite (fun _ => ?_) fun _ => .pure _
  cases hl : a.leftSide? with
  | none => exact .pure _
  | some left =>
    cases hr : a.rightSide? with
    | none => exact .pure _
    | some right =>
      have underL : Under a left := .of_mem (mem_beneath_of_held rfl hl)
      have underR : Under a right := .of_mem (mem_beneath_of_held rfl hr)
      have sides : Inquiry (BothClear a b) (Asked r a b)
          fun sub => Run.either (sub (left, b)) (sub (right, b)) :=
        (Inquiry.question (asked_source underL (.inl three))).either
          (.question (asked_source underR (.inl three)))
      refine (Inquiry.ite (fun _ => ?_) fun _ => sides).map some
      exact (Inquiry.question
        (asked_source (underL.mergedObject underR) (.inl three))).either sides

theorem intersectionTargetOf_inquires (three : r.held = 3) :
    Inquiry (BothClear a b) (Asked r a b)
      fun sub => intersectionTargetOf (Function.curry sub) a b := by
  refine .ite (fun _ => ?_) fun _ => .pure _
  cases hl : b.leftSide? with
  | none => exact .pure _
  | some left =>
    cases hr : b.rightSide? with
    | none => exact .pure _
    | some right =>
      have underL : Under b left := .of_mem (mem_beneath_of_held rfl hl)
      have underR : Under b right := .of_mem (mem_beneath_of_held rfl hr)
      exact ((Inquiry.question (asked_target underL (.inl three))).both
        (.question (asked_target underR (.inl three)))).map some

/-- **Every rule asks about lower pairs only**, and does not break off by itself at a pair that is
clear. -/
theorem decide_inquires (r : Rule) (a b : Value) :
    Inquiry (BothClear a b) (Asked r a b)
      fun sub => Rule.decide (Function.curry sub) a b r := by
  cases r with
  | identity => exact .pure _
  | topBottom => exact .pure _
  | optionalTarget => exact wrapperTarget_inquires rfl .optional .undefined
  | nullableTarget => exact wrapperTarget_inquires rfl .nullable .null
  | literalSource => exact .answer _ literalSourceOf_reads
  | enumSource => exact .answer _ enumSourceOf_reads
  | primitivePair => exact .pure _
  | undefinedSource => exact .answer _ (undefinedSourceOf_reads .undefined)
  | undefinedSourceNullUnion => exact .answer _ (undefinedSourceOf_reads .null)
  | optionalSource => exact wrapperSource_inquires rfl .optional .undefined
  | nullableSource => exact wrapperSource_inquires rfl .nullable .null
  | arrayPair => exact arrayPairOf_inquires
  | arrayToUnion => exact arrayToUnionOf_inquires
  | unionToArray => exact .pure _
  | tuplePair => exact tuplePairOf_inquires
  | objectPair => exact objectPairOf_inquires
  | recordPair => exact recordPairOf_inquires
  | unionSource => exact unionSourceOf_inquires
  | unionTarget => exact unionTargetOf_inquires
  | intersectionSource => exact intersectionSourceOf_inquires rfl
  | intersectionTarget => exact intersectionTargetOf_inquires rfl
  | customPair => exact .pure _
  | primitiveFallback => exact .pure _
  | otherwise => exact .pure _

end Rules

end Rule

/-- What a clear pair asks about is clear. -/
theorem Asked.clear {r : Rule} {a b : Value} {q : Value × Value} (h : Asked r a b q)
    (clear : Rule.BothClear a b) : Rule.BothClear q.1 q.2 :=
  ⟨h.source Value.isLegible_portable clear.1, h.target Value.isLegible_portable clear.2⟩

/-! ## The table -/

/-- A rule that asks, and the pair that it asks about. -/
abbrev Question := Rule × Value × Value

/-- **`decision`** — the first decision of the table about a pair, with the answers to the questions
of its rules. -/
def decision (a b : Value) (sub : Question → Run Bool) : Run Decision :=
  firstDecision (fun r => Rule.decide (fun x y => sub (r, x, y)) a b r) Rule.all

theorem decision_inquires (a b : Value) :
    Inquiry (Rule.BothClear a b) (fun q => Asked q.1 a b q.2) (decision a b) := by
  unfold decision
  -- By induction on the rules that are still to be asked.
  generalize Rule.all = rules
  induction rules with
  | nil => exact .pure _
  | cons r rest ih =>
    have asked : Inquiry (Rule.BothClear a b) (fun q : Question => Asked q.1 a b q.2)
        fun sub => Rule.decide (fun x y => sub (r, x, y)) a b r :=
      (Rule.decide_inquires r a b).rephrase (fun q => (r, q)) fun _ h => h
    refine asked.bind fun verdict => ?_
    cases verdict with
    | none => exact ih
    | some v => exact .pure _

/-- A comparison that is not at its last level asks the table, with room enough. -/
theorem Policy.check_succ (p : Policy) (levels room : Nat) (depth : Int) (a b : Value) :
    p.check (levels + 1) room depth a b =
      if room < p.callsFor a b then Logged.quiet (.error .stackExhausted)
      else (do
        let d ← decision a b fun q => p.check levels (room - q.1.held) (depth + 1) q.2.1 q.2.2
        Logged.note (p.report depth a b d)
        pure d.verdict) :=
  rfl

end Conformance
