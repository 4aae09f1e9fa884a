/-
# Conformance.Proofs.Dispatch — which rule decides a pair, and what it then says.

Whether a rule decides a pair of descriptors or defers depends on two things only: whether the pair
is one node, and the two kinds.  `Rule.applies` says how, rule by rule, and `Rule.chosen` is the
first rule of the table that applies.  `Rule.decide_of_not_applies` and `Rule.decide_settles` tie
both to the rules themselves.
-/
import Conformance.Proofs.Acceptance

namespace Conformance

namespace Rule

open Schema

/-- Does a rule decide a pair with these kinds, or does it defer? -/
def applies (same : Bool) (k l : Option Kind) : Rule → Bool
  | .identity => same
  | .topBottom =>
    l == some .unknown || l == some .any || k == some .never || k == some .any || k == some .unknown
  | .optionalTarget => l == some .optional
  | .nullableTarget => l == some .nullable
  | .literalSource => k == some .literal
  | .enumSource => k == some .enum
  | .primitivePair => k.any Kind.isPrimitive && l.any Kind.isPrimitive
  | .undefinedSource | .undefinedSourceNullUnion => k == some .undefined
  | .optionalSource => k == some .optional
  | .nullableSource => k == some .nullable
  | .arrayPair => k == some .array && l == some .array
  | .arrayToUnion => k == some .array && l == some .union
  | .unionToArray => k == some .union && l == some .array
  | .tuplePair => k == some .tuple && l == some .tuple
  | .objectPair => k == some .object && l == some .object
  | .recordPair => k == some .record && l == some .record
  | .unionSource => k == some .union
  | .unionTarget => l == some .union
  | .intersectionSource => k == some .intersection
  | .intersectionTarget => l == some .intersection
  | .customPair => k == some .custom && l == some .custom
  | .primitiveFallback => l.any Kind.isFallback
  | .otherwise => true

/-- **`chosen`** — the first rule of the table that decides a pair with these kinds. -/
def chosen (same : Bool) (k l : Option Kind) : Rule :=
  (Rule.all.find? fun r => r.applies same k l).getD .otherwise

/-! ## Rules that defer -/

/-- A rule that does not apply defers, and compares nothing. -/
theorem decide_defers {sub : Compare} {a b : Value} {r : Rule}
    (h : r.applies (a.same b) a.kind? b.kind? = false) : Rule.decide sub a b r = pure none := by
  rw [applies.eq_def] at h
  cases r with
  | topBottom =>
    simp only [Bool.or_eq_false_iff] at h
    simp [Rule.decide, topBottomOf, Value.isOf, h]
  | primitivePair =>
    simp only [Rule.decide, primitivePairOf]
    cases hk : a.kind? with
    | none => rfl
    | some k =>
      cases hl : b.kind? with
      | none => rfl
      | some l =>
        simp only [hk, hl, Option.any_some] at h
        simp [h]
  | primitiveFallback =>
    simp only [Rule.decide, primitiveFallbackOf]
    cases hl : b.kind? with
    | none => rfl
    | some l =>
      simp only [hl, Option.any_some] at h
      simp [h]
  | literalSource =>
    simp only [Rule.decide, literalSourceOf, Value.isOf, h]
    rfl
  | enumSource =>
    simp only [Rule.decide, enumSourceOf, Value.isOf, h]
    rfl
  | undefinedSource =>
    simp only [Rule.decide, undefinedSourceOf, Value.isOf, h]
    rfl
  | undefinedSourceNullUnion =>
    simp only [Rule.decide, undefinedSourceOf, Value.isOf, h]
    rfl
  | otherwise => cases h
  | _ =>
    -- The other rules begin with the test that `applies` repeats.
    simp [Rule.decide, identityOf, wrapperTarget, wrapperSource, arrayPairOf, arrayToUnionOf,
      unionToArrayOf, tuplePairOf, objectPairOf, recordPairOf, unionSourceOf, unionTargetOf,
      intersectionSourceOf, intersectionTargetOf, customPairOf, Value.isOf, h]

theorem decide_of_not_applies {sub : Compare} {a b : Schema} {r : Rule}
    (h : r.applies (a.id.same b.id) a.kind? b.kind? = false) :
    Rule.decide sub a.value b.value r = pure none := by
  apply decide_defers
  rw [same_value, kind?_value, kind?_value]
  exact h

/-! ## Rules that decide -/

/-- The comparison one level down tells what `P` says of every pair that is lower together. -/
def TellsBelow (allowed : Fault → Prop) (sub : Compare) (P : Schema → Schema → Prop)
    (a b : Schema) : Prop :=
  ∀ x y : Schema, x.height + y.height < a.height + b.height →
    Run.Tells allowed (sub x.value y.value) (P x y)

section Decides

variable {allowed : Fault → Prop} {sub : Compare} {P : Schema → Schema → Prop} {a b : Schema}

theorem wrapped?_eq_inside? (w : Wrapper) (s : Schema) :
    s.value.wrapped? w.kind = (s.inside? w).map value := by
  cases s with
  | wrap id v inner =>
    by_cases h : v = w
    · subst h
      rw [wrapped?_value, inside?, if_pos rfl]
      rfl
    · rw [inside?, if_neg h]
      cases v <;> cases w <;> first | exact absurd rfl h | rfl
  | plain id sort => cases sort <;> cases w <;> rfl
  | _ => cases w <;> rfl

theorem inside?_isSome_iff {w : Wrapper} {s : Schema} :
    (s.inside? w).isSome ↔ s.kind? = some w.kind := by
  cases s with
  | wrap id v inner => cases v <;> cases w <;> simp [inside?, kind?, Wrapper.kind]
  | plain id sort => cases sort <;> cases w <;> simp [inside?, kind?, Plain.kind, Wrapper.kind]
  | _ => cases w <;> simp [inside?, kind?, Wrapper.kind]

theorem wrapperTarget_settles (w : Wrapper) (below : TellsBelow allowed sub P a b)
    (hb : b.kind? = some w.kind) :
    Run.Settles allowed (wrapperTarget w.kind w.absence.kind sub a.value b.value)
      (IntoWrapper P w a b) := by
  obtain ⟨inner, inside⟩ := Option.isSome_iff_exists.mp (inside?_isSome_iff.mpr hb)
  rw [wrapperTarget, isOf_value, isOf_value, if_pos (by simp [hb]), IntoWrapper, inside]
  by_cases ha : a.kind? = some w.absence.kind
  · rw [if_pos (by simp [ha])]
    exact Run.settles_pure (by simp [ha])
  · rw [if_neg (by simp [ha]), wrapped?_eq_inside?, inside]
    have lower := height_lt_of_mem (mem_children_of_inside? inside)
    exact Run.settles_map ((below a inner (by omega)).congr (by simp [ha]))

theorem wrapperSource_settles (w : Wrapper) (below : TellsBelow allowed sub P a b)
    (ha : a.kind? = some w.kind) :
    Run.Settles allowed (wrapperSource w.kind w.probe.value sub a.value b.value)
      (FromWrapper P w a b) := by
  obtain ⟨x, inside⟩ := Option.isSome_iff_exists.mp (inside?_isSome_iff.mpr ha)
  have lowerX := height_lt_of_mem (mem_children_of_inside? inside)
  rw [wrapperSource, isOf_value, isOf_value, if_pos (by simp [ha]), wrapped?_eq_inside?,
    wrapped?_eq_inside?, inside, FromWrapper, inside]
  cases hb : b.inside? w with
  | none =>
    have other : b.kind? ≠ some w.kind := fun h => by
      have := inside?_isSome_iff.mpr h
      rw [hb] at this
      cases this
    have guard : (b.kind? == some w.kind) = false := by simp [other]
    have flat : w.probe.height = 0 := rfl
    simp only [Option.map_some, guard, Bool.false_eq_true, if_false]
    exact Run.settles_map ((below x b (by omega)).both (below w.probe b (by omega)))
  | some y =>
    have like : b.kind? = some w.kind := inside?_isSome_iff.mp (by simp [hb])
    have guard : (b.kind? == some w.kind) = true := by simp [like]
    have lowerY := height_lt_of_mem (mem_children_of_inside? hb)
    simp only [Option.map_some, guard, if_true]
    exact Run.settles_map (below x y (by omega))

theorem topBottomOf_value
    (h : b.isTop = true ∨ a.isBottom = true ∨ a.kind? = some .unknown) :
    topBottomOf a.value b.value = some (b.isTop || a.isBottom) := by
  simp only [topBottomOf, isOf_value]
  rw [← isTop, ← isBottom]
  cases top : b.isTop with
  | true => rfl
  | false =>
    cases bottom : a.isBottom with
    | true => rfl
    | false =>
      have unknown : a.kind? = some .unknown := by simpa [top, bottom] using h
      simp [unknown]

theorem answer_of_test (c : Bool) :
    (if c = true then pure (some true) else pure (some false) : Except Fault (Option Bool)) =
      .ok (some c) := by
  cases c <;> rfl

theorem literalSource_settles (ha : a.kind? = some .literal) :
    Run.Settles allowed (Logged.quiet (literalSourceOf a.value b.value))
      (Accepts P .literalSource a b) := by
  obtain ⟨i, values, rfl⟩ := form_of_kind? ha
  have answer : literalSourceOf (literal i values).value b.value =
      .ok (some (!values.isEmpty && literalFits values b)) := by
    simp only [literalSourceOf, isOf_value, literalValues_value, kind?_value]
    cases values with
    | nil => rfl
    | cons v rest =>
      cases b with
      | literal j members =>
        rw [literalValues_value]
        rfl
      | enum j members =>
        rw [enumValues_value]
        rfl
      | union j options =>
        rw [unionOptions_value]
        simp [kind?, Value.inPrimitive, literalFits, bind, Except.bind, pure, Except.pure,
          allTaken_value]
      | plain j sort => cases sort <;> exact answer_of_test _
      | wrap j w inner =>
        cases w <;> simp [kind?, Wrapper.kind, Value.inPrimitive, literalFits, bind, Except.bind,
          pure, Except.pure]
      | _ => simp [kind?, Value.inPrimitive, literalFits, bind, Except.bind, pure, Except.pure]
  rw [answer]
  refine Run.settles_pure ?_
  simp [Accepts, listed]

theorem enumSource_settles (ha : a.kind? = some .enum) :
    Run.Settles allowed (Logged.quiet (enumSourceOf a.value b.value))
      (Accepts P .enumSource a b) := by
  obtain ⟨i, values, rfl⟩ := form_of_kind? ha
  have answer : enumSourceOf (enum i values).value b.value =
      .ok (some (!values.isEmpty && enumFits values b)) := by
    simp only [enumSourceOf, isOf_value, enumValues_value]
    cases values with
    | nil => rfl
    | cons v rest =>
      cases b with
      | enum j members =>
        rw [enumValues_value]
        rfl
      | union j options =>
        rw [unionOptions_value]
        simp [kind?, enumFits, bind, Except.bind, pure, Except.pure, allTaken_value]
      | plain j sort => cases sort <;> rfl
      | wrap j w inner => cases w <;> rfl
      | _ => rfl
  rw [answer]
  refine Run.settles_pure ?_
  simp [Accepts, listed]

theorem undefinedSource_settles (option : Kind) (ha : a.kind? = some .undefined) :
    Run.Settles allowed (Logged.quiet (undefinedSourceOf option a.value b.value))
      (b.undefinedFits option = true) := by
  have answer : undefinedSourceOf option a.value b.value = .ok (some (b.undefinedFits option)) := by
    simp only [undefinedSourceOf, isOf_value, ha]
    cases b with
    | union j options =>
      rw [unionOptions_value]
      simp [kind?, undefinedFits, bind, Except.bind, pure, Except.pure, Function.comp_def]
    | plain j sort => cases sort <;> rfl
    | wrap j w inner => cases w <;> rfl
    | _ => rfl
  rw [answer]
  exact Run.settles_pure Iff.rfl

theorem arrayPair_settles (below : TellsBelow allowed sub P a b) (ha : a.kind? = some .array)
    (hb : b.kind? = some .array) :
    Run.Settles allowed (arrayPairOf sub a.value b.value) (PairFits P a b) := by
  obtain ⟨i, x, rfl⟩ := form_of_kind? ha
  obtain ⟨j, y, rfl⟩ := form_of_kind? hb
  have lowerX : x.height < (array i x).height := height_lt_of_mem (by simp [children])
  have lowerY : y.height < (array j y).height := height_lt_of_mem (by simp [children])
  rw [arrayPairOf, arrayElement?_value, arrayElement?_value]
  exact Run.settles_map (below x y (by omega))

theorem arrayToUnion_settles (below : TellsBelow allowed sub P a b) (ha : a.kind? = some .array)
    (hb : b.kind? = some .union) :
    Run.Settles allowed (arrayToUnionOf sub a.value b.value) (Accepts P .arrayToUnion a b) := by
  obtain ⟨j, os, rfl⟩ := form_of_kind? hb
  have guard : (a.value.isOf .array && (union j os).value.isOf .union) = true := by simp [ha, hb]
  rw [arrayToUnionOf, if_pos guard, unionOptions_value]
  refine Run.settles_map (Run.tells_anyM_map fun o ho => ?_)
  have lower : o.height < (union j os).height := height_lt_of_mem ho
  rw [isOf_value]
  by_cases kind : o.kind? = some .array
  · rw [if_pos (by simp [kind])]
    exact (below a o (by omega)).congr (by simp [kind])
  · rw [if_neg (by simp [kind])]
    exact Run.tells_pure (by simp [kind])

theorem tuplePair_settles (below : TellsBelow allowed sub P a b) (ha : a.kind? = some .tuple)
    (hb : b.kind? = some .tuple) :
    Run.Settles allowed (tuplePairOf sub a.value b.value) (PairFits P a b) := by
  obtain ⟨i, xs, rfl⟩ := form_of_kind? ha
  obtain ⟨j, ys, rfl⟩ := form_of_kind? hb
  have guard : ((tuple i xs).value.isOf .tuple && (tuple j ys).value.isOf .tuple) = true := by
    simp [ha, hb]
  rw [tuplePairOf, if_pos guard, tupleItems?_value, tupleItems?_value]
  show Run.Settles allowed
    (if ((xs.map value).length == (ys.map value).length) = true
      then some <$> ((xs.map value).zip (ys.map value)).allM fun p => sub p.1 p.2
      else pure (some false)) (List.Forall₂ P xs ys)
  by_cases lengths : xs.length = ys.length
  · rw [if_pos (by simp [lengths]), List.zip_map]
    refine Run.settles_map ((Run.tells_allM_map (R := fun p => P p.1 p.2) fun p hp => ?_).congr ?_)
    · obtain ⟨hx, hy⟩ := List.of_mem_zip (a := p.1) (b := p.2) hp
      have lowerX : p.1.height < (tuple i xs).height := height_lt_of_mem hx
      have lowerY : p.2.height < (tuple j ys).height := height_lt_of_mem hy
      exact below p.1 p.2 (by omega)
    · rw [List.forall₂_iff_zip]
      exact ⟨fun h => ⟨lengths, fun hp => h _ hp⟩, fun h p hp => h.2 hp⟩
  · rw [if_neg (by simp [lengths])]
    refine Run.settles_pure ?_
    have apart : ¬ List.Forall₂ P xs ys := fun h => lengths h.length_eq
    simp [apart]

theorem exists_node (s : Schema) : ∃ id model parts, s.value = .node id model parts := by
  cases s <;> exact ⟨_, _, _, rfl⟩

theorem fieldConforms_of_lookup {fields : List (String × Schema)} {name : String} {s t : Schema}
    (found : fields.lookup name = some s) :
    fieldConforms sub (fields.map entry) (entry (name, t)) =
      if (!t.omittable && s.omittable) = true then pure false
      else sub s.present.value t.present.value := by
  obtain ⟨id, model, parts, node⟩ := exists_node s
  rw [← whenPresent_value s, ← whenPresent_value t]
  simp only [fieldConforms, entry, omittable_value, find?_entries, found, Option.map_some, node]
  rw [← node, omittable_value]
  rfl

theorem fieldConforms_tells {fields : List (String × Schema)} {f : String × Schema}
    (below : ∀ s, (f.1, s) ∈ fields →
      Run.Tells allowed (sub s.present.value f.2.present.value) (P s.present f.2.present)) :
    Run.Tells allowed (fieldConforms sub (fields.map entry) (entry f)) (FieldFits P fields f) := by
  obtain ⟨name, t⟩ := f
  rw [FieldFits]
  cases found : fields.lookup name with
  | none =>
    simp only [fieldConforms, entry, omittable_value, find?_entries, found]
    exact Run.tells_pure Iff.rfl
  | some s =>
    have here := below s (mem_of_lookup found)
    rw [fieldConforms_of_lookup found]
    cases ht : t.omittable <;> cases hs : s.omittable
    · exact here.congr (by simp [hs])
    · exact Run.tells_pure (by simp [hs])
    · exact here.congr (by simp)
    · exact here.congr (by simp)

theorem objectPair_settles (below : TellsBelow allowed sub P a b) (ha : a.kind? = some .object)
    (hb : b.kind? = some .object) :
    Run.Settles allowed (objectPairOf sub a.value b.value) (PairFits P a b) := by
  obtain ⟨i, fields, rfl⟩ := form_of_kind? ha
  obtain ⟨j, more, rfl⟩ := form_of_kind? hb
  have guard :
      ((object i fields).value.isOf .object && (object j more).value.isOf .object) = true := by
    simp [ha, hb]
  rw [objectPairOf, if_pos guard, fields_value, fields_value]
  refine Run.settles_map (Run.tells_allM_map fun f hf => fieldConforms_tells fun s hs => ?_)
  have lowerX : s.height < (object i fields).height :=
    height_lt_of_mem (List.mem_map_of_mem (f := Prod.snd) hs)
  have lowerY : f.2.height < (object j more).height := height_lt_of_mem (List.mem_map_of_mem hf)
  have presentX := height_present_le s
  have presentY := height_present_le f.2
  exact below s.present f.2.present (by omega)

theorem recordPair_settles (below : TellsBelow allowed sub P a b) (ha : a.kind? = some .record)
    (hb : b.kind? = some .record) :
    Run.Settles allowed (recordPairOf sub a.value b.value) (PairFits P a b) := by
  obtain ⟨i, k, v, rfl⟩ := form_of_kind? ha
  obtain ⟨j, l, w, rfl⟩ := form_of_kind? hb
  have lowerK : k.height < (record i k v).height := height_lt_of_mem (by simp [children])
  have lowerV : v.height < (record i k v).height := height_lt_of_mem (by simp [children])
  have lowerL : l.height < (record j l w).height := height_lt_of_mem (by simp [children])
  have lowerW : w.height < (record j l w).height := height_lt_of_mem (by simp [children])
  rw [recordPairOf, recordKey?_value, recordValue?_value, recordKey?_value, recordValue?_value]
  exact Run.settles_map ((below k l (by omega)).both (below v w (by omega)))

theorem unionSource_settles (below : TellsBelow allowed sub P a b) (ha : a.kind? = some .union) :
    Run.Settles allowed (unionSourceOf sub a.value b.value) (Accepts P .unionSource a b) := by
  obtain ⟨i, os, rfl⟩ := form_of_kind? ha
  rw [unionSourceOf, if_pos (by simp [ha]), unionOptions_value]
  show Run.Settles allowed
    (if (os.map value).isEmpty = true then pure (some false)
      else some <$> (os.map value).allM fun o => sub o b.value) (os ≠ [] ∧ ∀ o ∈ os, P o b)
  by_cases empty : os = []
  · rw [if_pos (by simp [empty])]
    exact Run.settles_pure (by simp [empty])
  · rw [if_neg (by simp [empty])]
    refine Run.settles_map ((Run.tells_allM_map (R := fun o => P o b) fun o ho => ?_).congr ?_)
    · have lower : o.height < (union i os).height := height_lt_of_mem ho
      exact below o b (by omega)
    · exact ⟨fun h => ⟨empty, h⟩, And.right⟩

theorem unionTarget_settles (below : TellsBelow allowed sub P a b) (hb : b.kind? = some .union) :
    Run.Settles allowed (unionTargetOf sub a.value b.value) (Accepts P .unionTarget a b) := by
  obtain ⟨j, os, rfl⟩ := form_of_kind? hb
  rw [unionTargetOf, if_pos (by simp [hb]), unionOptions_value]
  refine Run.settles_map (Run.tells_anyM_map fun o ho => ?_)
  have lower : o.height < (union j os).height := height_lt_of_mem ho
  exact below a o (by omega)

theorem intersectionSource_settles (below : TellsBelow allowed sub P a b)
    (ha : a.kind? = some .intersection) :
    Run.Settles allowed (intersectionSourceOf sub a.value b.value) (FromSides P a b) := by
  obtain ⟨i, left, right, rfl⟩ := form_of_kind? ha
  have lowerL : left.height < (intersection i left right).height :=
    height_lt_of_mem (by simp [children])
  have lowerR : right.height < (intersection i left right).height :=
    height_lt_of_mem (by simp [children])
  have sides : Run.Tells allowed (Run.either (sub left.value b.value) (sub right.value b.value))
      (P left b ∨ P right b) := (below left b (by omega)).either (below right b (by omega))
  rw [intersectionSourceOf, if_pos (by simp [ha]), leftSide?_value, rightSide?_value, FromSides]
  refine Run.settles_map ?_
  by_cases objects : left.kind? = some .object ∧ right.kind? = some .object
  · obtain ⟨⟨j, fields, rfl⟩, ⟨k, more, rfl⟩⟩ := objects.imp form_of_kind? form_of_kind?
    rw [if_pos (by simp [objects]), mergedObject_value]
    have lower := height_merged_lt lowerL lowerR
    exact (below _ b (by omega)).either sides
  · rw [if_neg (by simpa using objects)]
    have unmerged : ¬ MergedFits P left right b := by
      rw [MergedFits.eq_def]
      split
      · exact absurd ⟨rfl, rfl⟩ objects
      · exact id
    exact sides.congr (by simp [unmerged])

theorem intersectionTarget_settles (below : TellsBelow allowed sub P a b)
    (hb : b.kind? = some .intersection) :
    Run.Settles allowed (intersectionTargetOf sub a.value b.value) (IntoSides P a b) := by
  obtain ⟨j, left, right, rfl⟩ := form_of_kind? hb
  have lowerL : left.height < (intersection j left right).height :=
    height_lt_of_mem (by simp [children])
  have lowerR : right.height < (intersection j left right).height :=
    height_lt_of_mem (by simp [children])
  rw [intersectionTargetOf, if_pos (by simp [hb]), leftSide?_value, rightSide?_value]
  exact Run.settles_map ((below a left (by omega)).both (below a right (by omega)))

/-- Where a rule applies, asking it tells what `Accepts` says. -/
theorem decide_settles {r : Rule} (below : TellsBelow allowed sub P a b)
    (h : r.applies (a.id.same b.id) a.kind? b.kind? = true) :
    Run.Settles allowed (Rule.decide sub a.value b.value r) (Accepts P r a b) := by
  rw [applies.eq_def] at h
  cases r with
  | identity =>
    have same : a.value.same b.value = true := by simpa using h
    rw [Rule.decide, identityOf, if_pos same]
    exact Run.settles_pure (by simp [Accepts, h])
  | topBottom =>
    rw [Rule.decide, topBottomOf_value (by simpa [isTop, isBottom, or_assoc] using h)]
    exact Run.settles_pure (by simp [Accepts])
  | optionalTarget => exact wrapperTarget_settles .optional below (beq_iff_eq.mp h)
  | nullableTarget => exact wrapperTarget_settles .nullable below (beq_iff_eq.mp h)
  | literalSource => exact literalSource_settles (beq_iff_eq.mp h)
  | enumSource => exact enumSource_settles (beq_iff_eq.mp h)
  | primitivePair =>
    rw [Bool.and_eq_true, Option.any_eq_true, Option.any_eq_true] at h
    obtain ⟨⟨k, hk, primitive⟩, ⟨l, hl, primitive'⟩⟩ := h
    simp only [Rule.decide, primitivePairOf, kind?_value, hk, hl, primitive, primitive']
    exact Run.settles_pure (by simp [Accepts, hk, hl])
  | undefinedSource => exact undefinedSource_settles .undefined (beq_iff_eq.mp h)
  | undefinedSourceNullUnion => exact undefinedSource_settles .null (beq_iff_eq.mp h)
  | optionalSource => exact wrapperSource_settles .optional below (beq_iff_eq.mp h)
  | nullableSource => exact wrapperSource_settles .nullable below (beq_iff_eq.mp h)
  | arrayPair =>
    rw [Bool.and_eq_true, beq_iff_eq, beq_iff_eq] at h
    exact arrayPair_settles below h.1 h.2
  | arrayToUnion =>
    rw [Bool.and_eq_true, beq_iff_eq, beq_iff_eq] at h
    exact arrayToUnion_settles below h.1 h.2
  | unionToArray =>
    rw [Bool.and_eq_true, beq_iff_eq, beq_iff_eq] at h
    rw [Rule.decide, unionToArrayOf, if_pos (by simp [h])]
    exact Run.settles_pure (by simp [Accepts])
  | tuplePair =>
    rw [Bool.and_eq_true, beq_iff_eq, beq_iff_eq] at h
    exact tuplePair_settles below h.1 h.2
  | objectPair =>
    rw [Bool.and_eq_true, beq_iff_eq, beq_iff_eq] at h
    exact objectPair_settles below h.1 h.2
  | recordPair =>
    rw [Bool.and_eq_true, beq_iff_eq, beq_iff_eq] at h
    exact recordPair_settles below h.1 h.2
  | unionSource => exact unionSource_settles below (beq_iff_eq.mp h)
  | unionTarget => exact unionTarget_settles below (beq_iff_eq.mp h)
  | intersectionSource => exact intersectionSource_settles below (beq_iff_eq.mp h)
  | intersectionTarget => exact intersectionTarget_settles below (beq_iff_eq.mp h)
  | customPair =>
    rw [Bool.and_eq_true, beq_iff_eq, beq_iff_eq] at h
    rw [Rule.decide, customPairOf, if_pos (by simp [h])]
    exact Run.settles_pure (by simp [Accepts])
  | primitiveFallback =>
    rw [Option.any_eq_true] at h
    obtain ⟨l, hl, fallback⟩ := h
    simp only [Rule.decide, primitiveFallbackOf, kind?_value, isOf_value, hl, fallback]
    exact Run.settles_pure (by simp [Accepts, hl])
  | otherwise => exact Run.settles_pure (by simp [Accepts])

end Decides

end Rule

end Conformance
