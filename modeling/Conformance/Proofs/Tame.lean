/-
# Conformance.Proofs.Tame — descriptors on which the comparison has a simple form.

A *tame* descriptor has no enumerations, wrappers or intersections, no `bigint`, `undefined` or
`any`, its literals list one value each, and its unions list only *flat* options, that is, no unions
and neither top nor bottom.

On tame descriptors the relation has a simple form.  A union as source asks for all its options
(`fits_from_union`), a union as target for one (`fits_into_union`), a literal for what its value is
(`fits_literal_iff`), and two other flat nodes are of one kind (`kind_eq_of_fits`) and conform as
that kind does (`fits_iff_of_kind_eq`).  Nodes may be shared in any way: an identity belongs to one
node of the heap, and a node conforms to itself.
-/
import Conformance.Proofs.Fits
import Conformance.Proofs.Sameness

namespace Conformance

/-- The kinds of node with a sort of values of their own: neither unions nor top nor bottom. -/
def Kind.isFlat : Kind → Bool
  | .string | .number | .boolean | .symbol | .null | .literal | .array | .tuple | .object | .record
  | .custom => true
  | _ => false

namespace Schema

/-! ## Tame descriptors -/

/-- **`IsTame`** — a node of the fragment: a literal lists one value, which is not undefined, and no
option of a union is a union, `unknown` or `never`. -/
def IsTame : Schema → Prop
  | .plain _ sort => sort ∈ [.string, .number, .boolean, .symbol, .null, .unknown, .never]
  | .literal _ values => ∃ v, values = [v] ∧ v ≠ .undefined
  | .array _ _ | .tuple _ _ | .object _ _ | .record _ _ _ | .custom _ _ _ _ => True
  | .union _ options =>
    ∀ o ∈ options, o.kind? ≠ some .union ∧ o.kind? ≠ some .unknown ∧ o.kind? ≠ some .never
  | .bare _ | .enum _ _ | .wrap _ _ _ | .intersection _ _ _ => False

/-- A tame node that was built and is kept by the heap. -/
structure IsTameIn (heap : Heap) (s : Schema) : Prop where
  tame : s.IsTame
  parts : s.PartsSound
  keeps : heap.Keeps s

/-- A node of a flat kind. -/
def IsFlat (s : Schema) : Prop := ∃ k, s.kind? = some k ∧ k.isFlat = true

variable {heap : Heap} {a b m c o : Schema}

theorem IsFlat.kind_ne {k : Kind} (h : a.IsFlat) (notFlat : k.isFlat = false) :
    a.kind? ≠ some k := by
  obtain ⟨l, kind, flat⟩ := h
  rw [kind]
  rintro ⟨⟩
  rw [flat] at notFlat
  cases notFlat

theorem IsTame.kinds (h : a.IsTame) :
    a.IsFlat ∨ a.kind? = some .union ∨ a.kind? = some .unknown ∨ a.kind? = some .never := by
  cases a with
  | plain id sort =>
    cases sort with
    | string | number | boolean | symbol | null => exact .inl ⟨_, rfl, rfl⟩
    | unknown => exact .inr (.inr (.inl rfl))
    | never => exact .inr (.inr (.inr rfl))
    | _ => simp [IsTame] at h
  | union => exact .inr (.inl rfl)
  | literal | array | tuple | object | record | custom => exact .inl ⟨_, rfl, rfl⟩
  | _ => exact h.elim

theorem Everywhere.eq_of_same (ha : Everywhere (IsTameIn heap) a)
    (hb : Everywhere (IsTameIn heap) b) (same : a.id.same b.id = true) : a = b :=
  ha.here.keeps.eq_of_same hb.here.keeps same

/-- The options of a tame union are flat. -/
theorem isFlat_of_mem_options (ha : Everywhere (IsTameIn heap) a) (ho : o ∈ a.options) :
    o.IsFlat := by
  have tame := (ha.child (mem_children_of_mem_options ho)).here.tame
  cases a with
  | union id options =>
    obtain ⟨noUnion, noUnknown, noNever⟩ := ha.here.tame o ho
    rcases tame.kinds with flat | kind | kind | kind
    · exact flat
    · exact absurd kind noUnion
    · exact absurd kind noUnknown
    · exact absurd kind noNever
  | _ => cases ho

/-- No field of a tame object may be left out. -/
theorem omittable_of_tame (ha : Everywhere (IsTameIn heap) a) : a.omittable = false := by
  cases a with
  | union id options =>
    refine List.any_eq_false.mpr fun o ho => ?_
    have tame := (ha.child ho).here.tame
    cases o with
    | plain id sort =>
      cases sort with
      | undefined => simp [IsTame] at tame
      | _ => exact nofun
    | literal id values =>
      obtain ⟨v, rfl, defined⟩ := tame
      cases v with
      | undefined => exact absurd rfl defined
      | _ => exact nofun
    | _ => exact nofun
  | wrap => exact ha.here.tame.elim
  | _ => rfl

theorem present_of_tame (ha : Everywhere (IsTameIn heap) a) : a.present = a := by
  cases a with
  | wrap => exact ha.here.tame.elim
  | _ => rfl

end Schema

/-! ## Rules for flat kinds -/

namespace Rule

/-- Between flat kinds that differ, only rules that ask for one kind are left. -/
theorem chosen_of_kind_ne {k l : Kind} (hk : k.isFlat = true) (hl : l.isFlat = true)
    (literal : k ≠ .literal) (differ : k ≠ l) :
    chosen false (some k) (some l) ∈ [Rule.primitivePair, .primitiveFallback, .otherwise] := by
  have table : ∀ k ∈ Kind.all, ∀ l ∈ Kind.all, k.isFlat = true → l.isFlat = true → k ≠ .literal →
      k ≠ l →
      chosen false (some k) (some l) ∈ [Rule.primitivePair, .primitiveFallback, .otherwise] := by
    decide +kernel
  exact table k (Kind.mem_all k) l (Kind.mem_all l) hk hl literal differ

/-- A literal is looked at value by value, unless the target is top or a wrapper. -/
theorem chosen_literal {l : Kind} (h : l.isFlat = true ∨ l = .union ∨ l = .never) :
    chosen false (some .literal) (some l) = .literalSource := by
  have table : ∀ l ∈ Kind.all, l.isFlat = true ∨ l = .union ∨ l = .never →
      chosen false (some .literal) (some l) = .literalSource := by
    decide +kernel
  exact table l (Kind.mem_all l) h

/-- A union as source is looked at option by option, unless the target is an array. -/
theorem chosen_unionSource {l : Kind} (h : l.isFlat = true ∨ l = .union ∨ l = .never)
    (array : l ≠ .array) : chosen false (some .union) (some l) = .unionSource := by
  have table : ∀ l ∈ Kind.all, l.isFlat = true ∨ l = .union ∨ l = .never → l ≠ .array →
      chosen false (some .union) (some l) = .unionSource := by
    decide +kernel
  exact table l (Kind.mem_all l) h array

/-- A union as target is looked at option by option, unless the source is a literal or an array. -/
theorem chosen_unionTarget {k : Kind} (flat : k.isFlat = true) (literal : k ≠ .literal)
    (array : k ≠ .array) : chosen false (some k) (some .union) = .unionTarget := by
  have table : ∀ k ∈ Kind.all, k.isFlat = true → k ≠ .literal → k ≠ .array →
      chosen false (some k) (some .union) = .unionTarget := by
    decide +kernel
  exact table k (Kind.mem_all k) flat literal array

/-- No rule takes a flat source into bottom, unless it is a literal. -/
theorem chosen_never {k : Kind} (flat : k.isFlat = true) (literal : k ≠ .literal) :
    chosen false (some k) (some .never) = .otherwise := by
  have table : ∀ k ∈ Kind.all, k.isFlat = true → k ≠ .literal →
      chosen false (some k) (some .never) = .otherwise := by
    decide +kernel
  exact table k (Kind.mem_all k) flat literal

end Rule

namespace Schema

variable {heap : Heap} {a b m c o : Schema} {v w : Value}

theorem IsTameIn.lists (h : a.IsTameIn heap) : a.ListsIn heap := h.parts.listsIn h.keeps

/-! ## Literals -/

section Literals

theorem sameValue_comm (hv : v.ListedIn heap) (hw : w.ListedIn heap) :
    v.sameValue true w = true ↔ w.sameValue true v = true := by
  rw [Value.sameValue_iff hv hw, Value.sameValue_iff hw hv, eq_comm]

theorem literalFits_plain {id : Ident} {sort : Plain} :
    literalFits [v] (plain id sort) = v.inPrimitive (some sort.kind) := by
  simp [literalFits]

theorem literalFits_of_kind? (sort : Plain) (h : b.kind? = some sort.kind) :
    literalFits [v] b = v.inPrimitive (some sort.kind) := by
  cases sort <;> obtain ⟨id, rfl⟩ := form_of_kind? h <;> exact literalFits_plain

/-- For a flat option, to take a value and to be conformed to by its literal are one. -/
theorem takes_iff_literalFits (hv : v.ListedIn heap) (lists : o.ListsIn heap) (flat : o.IsFlat) :
    o.takes v = true ↔ literalFits [v] o = true := by
  obtain ⟨k, kind, flat⟩ := flat
  cases o with
  | literal id values =>
    simp only [takes, literalFits, Value.allAmong, List.all_cons, List.all_nil, Bool.and_true,
      List.any_eq_true]
    refine exists_congr fun w => and_congr_right fun hw => ?_
    exact sameValue_comm (lists w hw) hv
  | plain id sort =>
    rw [literalFits_plain]
    cases sort with
    | string | number | boolean | symbol | null => exact Iff.rfl
    | _ => cases kind; cases flat
  | enum => cases kind; cases flat
  | union => cases kind; cases flat
  | _ => exact Iff.rfl

theorem literalFits_congr_of_flat (hv : v.ListedIn heap) (hw : w.ListedIn heap)
    (one : v.essence true = w.essence true) (lists : o.ListsIn heap) (flat : o.IsFlat)
    (h : literalFits [v] o = true) : literalFits [w] o = true := by
  rw [← takes_iff_literalFits hv lists flat, takes_congr lists hv hw one] at h
  exact (takes_iff_literalFits hw lists flat).mp h

/-- A literal of one value conforms to a union if it conforms to an option. -/
theorem literalFits_union_iff {id : Ident} {options : List Schema} (hv : v.ListedIn heap)
    (lists : ∀ o ∈ options, o.ListsIn heap) (flat : ∀ o ∈ options, o.IsFlat) :
    literalFits [v] (union id options) = true ↔ ∃ o ∈ options, literalFits [v] o = true := by
  have taken : literalFits [v] (union id options) = options.any fun o => o.takes v := by
    simp [literalFits]
  rw [taken, List.any_eq_true]
  refine exists_congr fun o => and_congr_right fun ho => ?_
  exact takes_iff_literalFits hv (lists o ho) (flat o ho)

/-- **A literal of one value** conforms to what its value is, whatever nodes are shared. -/
theorem fits_literal_iff {i : Ident} (ha : Everywhere (IsTameIn heap) (literal i [v]))
    (hb : Everywhere (IsTameIn heap) b) (notTop : b.kind? ≠ some .unknown) :
    Fits (literal i [v]) b ↔ literalFits [v] b = true := by
  have hv : v.ListedIn heap := ha.here.lists v (List.mem_singleton_self v)
  cases apart : (literal i [v]).id.same b.id with
  | true =>
    obtain rfl := ha.eq_of_same hb apart
    have self : v.sameValue true v = true := (Value.sameValue_iff hv hv).mpr rfl
    have fits := fits_of_same apart
    simp [fits, literalFits, Value.allAmong, self]
  | false =>
    have rule : Rule.chosen false (literal i [v]).kind? b.kind? = .literalSource := by
      rcases hb.here.tame.kinds with ⟨l, kind, flat⟩ | kind | kind | kind
      · rw [kind]
        exact Rule.chosen_literal (.inl flat)
      · rw [kind]
        exact Rule.chosen_literal (.inr (.inl rfl))
      · exact absurd kind notTop
      · rw [kind]
        exact Rule.chosen_literal (.inr (.inr rfl))
    rw [fits_by .literalSource apart rule]
    exact ⟨And.right, fun h => ⟨List.cons_ne_nil v [], h⟩⟩

end Literals

/-! ## The relation on tame descriptors -/

section Forms

variable (ha : Everywhere (IsTameIn heap) a) (hb : Everywhere (IsTameIn heap) b)

include ha hb in
/-- Nodes of different kinds are different nodes. -/
theorem apart_of_kind_ne (differ : a.kind? ≠ b.kind?) : a.id.same b.id = false := by
  cases apart : a.id.same b.id with
  | false => rfl
  | true => exact absurd (congrArg kind? (ha.eq_of_same hb apart)) differ

/-- Two flat nodes, the first of which is no literal, are of one kind. -/
theorem kind_eq_of_fits (flatA : a.IsFlat) (flatB : b.IsFlat) (literal : a.kind? ≠ some .literal)
    (apart : a.id.same b.id = false) (h : Fits a b) : a.kind? = b.kind? := by
  obtain ⟨k, hk, flatK⟩ := flatA
  obtain ⟨l, hl, flatL⟩ := flatB
  by_cases same : k = l
  · rw [hk, hl, same]
  -- Were the kinds different, only rules would be left that ask for one kind.
  have rules := Rule.chosen_of_kind_ne flatK flatL (fun e => literal (e ▸ hk)) same
  rw [← hk, ← hl] at rules
  rw [fits_by _ apart rfl] at h
  simp only [List.mem_cons, List.not_mem_nil, or_false] at rules
  rcases rules with rule | rule | rule <;> rw [rule] at h
  · exact h
  · exact h
  · exact h.elim

include hb in
/-- A union conforms if each of its options does, and never to an array. -/
theorem fits_from_union {i : Ident} {options : List Schema} (some_option : options ≠ [])
    (notTop : b.kind? ≠ some .unknown) (apart : (union i options).id.same b.id = false) :
    Fits (union i options) b ↔ b.kind? ≠ some .array ∧ ∀ o ∈ options, Fits o b := by
  by_cases array : b.kind? = some .array
  · have rule : Rule.chosen false (union i options).kind? b.kind? = .unionToArray := by
      rw [array]
      rfl
    rw [fits_by .unionToArray apart rule]
    simp [Rule.Accepts, array]
  · have rule : Rule.chosen false (union i options).kind? b.kind? = .unionSource := by
      rcases hb.here.tame.kinds with ⟨l, kind, flat⟩ | kind | kind | kind
      · rw [kind]
        exact Rule.chosen_unionSource (.inl flat) fun e => array (e ▸ kind)
      · rw [kind]
        exact Rule.chosen_unionSource (.inr (.inl rfl)) (by decide)
      · exact absurd kind notTop
      · rw [kind]
        exact Rule.chosen_unionSource (.inr (.inr rfl)) (by decide)
    rw [fits_by .unionSource apart rule]
    exact and_congr_left fun _ => iff_of_true some_option array

include ha in
/-- A flat node conforms to a union if it conforms to one of its options. -/
theorem fits_into_union {j : Ident} {options : List Schema}
    (hu : Everywhere (IsTameIn heap) (union j options)) (flatA : a.IsFlat) :
    Fits a (union j options) ↔ ∃ o ∈ options, Fits a o := by
  have flatO : ∀ o ∈ options, o.IsFlat := fun o ho => isFlat_of_mem_options hu ho
  have tameO : ∀ o ∈ options, Everywhere (IsTameIn heap) o := fun o ho => hu.child ho
  have apart : a.id.same (union j options).id = false :=
    apart_of_kind_ne ha hu (flatA.kind_ne rfl)
  obtain ⟨k, kind, flat⟩ := flatA
  by_cases literal : k = .literal
  · subst literal
    obtain ⟨i, values, rfl⟩ := form_of_kind? kind
    obtain ⟨v, rfl, -⟩ := ha.here.tame
    have hv : v.ListedIn heap := ha.here.lists v (List.mem_singleton_self v)
    rw [fits_literal_iff ha hu (by simp [kind?]),
      literalFits_union_iff hv (fun o ho => (tameO o ho).here.lists) flatO]
    refine exists_congr fun o => and_congr_right fun ho => ?_
    exact (fits_literal_iff ha (tameO o ho) ((flatO o ho).kind_ne rfl)).symm
  by_cases array : k = .array
  · subst array
    obtain ⟨i, element, rfl⟩ := form_of_kind? kind
    rw [fits_by .arrayToUnion apart rfl]
    refine exists_congr fun o => and_congr_right fun ho => ⟨And.right, fun h => ⟨?_, h⟩⟩
    -- A flat option that takes an array is an array, or the same node.
    cases same : (Schema.array i element).id.same o.id with
    | true => rw [← ha.eq_of_same (tameO o ho) same, kind]
    | false =>
      rw [← kind_eq_of_fits ⟨_, kind, flat⟩ (flatO o ho) (by simp [kind?]) same h, kind]
  · have rule : Rule.chosen false a.kind? (union j options).kind? = .unionTarget := by
      rw [kind]
      exact Rule.chosen_unionTarget flat literal array
    rw [fits_by .unionTarget apart rule]
    exact Iff.rfl

include ha hb

/-- `unknown` conforms to `unknown` only. -/
theorem unknown_of_fits (top : a.kind? = some .unknown) (h : Fits a b) :
    b.kind? = some .unknown := by
  cases apart : a.id.same b.id with
  | true => rw [← ha.eq_of_same hb apart, top]
  | false =>
    obtain ⟨i, rfl⟩ := form_of_kind? top
    rw [fits_by .topBottom apart (Rule.chosen_topBottom (by simp [Rule.applies, top]))] at h
    rcases h with top | bottom
    · rcases Bool.or_eq_true_iff.mp top with kind | kind
      · exact beq_iff_eq.mp kind
      · obtain ⟨j, rfl⟩ := form_of_kind? (beq_iff_eq.mp kind)
        exact absurd hb.here.tame (by simp [IsTame])
    · cases bottom

/-- Only `never` conforms to `never`. -/
theorem never_of_fits (bottom : b.kind? = some .never) (h : Fits a b) : a.kind? = some .never := by
  obtain ⟨j, rfl⟩ := form_of_kind? bottom
  -- A flat node does not, and so no option of a union does.
  have flat_not {o : Schema} (ho : Everywhere (IsTameIn heap) o) (flatO : o.IsFlat) :
      ¬ Fits o (plain j .never) := by
    intro h
    have apart := apart_of_kind_ne ho hb (flatO.kind_ne rfl)
    obtain ⟨k, kind, flat⟩ := flatO
    by_cases literal : k = .literal
    · subst literal
      obtain ⟨i, values, rfl⟩ := form_of_kind? kind
      obtain ⟨v, rfl, -⟩ := ho.here.tame
      rw [fits_literal_iff ho hb (by simp [kind?, Plain.kind]), literalFits_plain] at h
      cases h
    · have rule : Rule.chosen false o.kind? (plain j .never).kind? = .otherwise := by
        rw [kind]
        exact Rule.chosen_never flat literal
      rw [fits_by .otherwise apart rule] at h
      exact h
  rcases ha.here.tame.kinds with flat | kind | kind | kind
  · exact absurd h (flat_not ha flat)
  · obtain ⟨i, options, rfl⟩ := form_of_kind? kind
    have apart := apart_of_kind_ne ha hb (by simp [kind?, Plain.kind])
    obtain ⟨-, each⟩ := (fits_from_union hb ha.here.parts (by simp [kind?, Plain.kind]) apart).mp h
    obtain ⟨o, ho⟩ := List.exists_mem_of_ne_nil options ha.here.parts
    exact absurd (each o ho) (flat_not (ha.child ho) (isFlat_of_mem_options ha ho))
  · cases unknown_of_fits ha hb kind h
  · exact kind

end Forms

/-- Two nodes of one flat kind: primitives conform, containers by their parts, and nothing else. -/
theorem fits_iff_of_kind_eq {k : Kind} (kindA : a.kind? = some k) (kindB : b.kind? = some k)
    (flat : k.isFlat = true) (literal : k ≠ .literal) (apart : a.id.same b.id = false) :
    Fits a b ↔ k.isPrimitive = true ∨ Rule.PairFits Fits a b := by
  have rules (r : Rule) (chosen : Rule.chosen false (some k) (some k) = r) :
      Fits a b ↔ Rule.Accepts Fits r a b := fits_by r apart (by rw [kindA, kindB, chosen])
  have alike : a.kind? = b.kind? := kindA.trans kindB.symm
  cases k with
  | string | number | boolean | symbol =>
    rw [rules .primitivePair rfl]
    simp [Rule.Accepts, alike, Kind.isPrimitive]
  | array =>
    rw [rules .arrayPair rfl]
    simp [Rule.Accepts, Kind.isPrimitive]
  | tuple =>
    rw [rules .tuplePair rfl]
    simp [Rule.Accepts, Kind.isPrimitive]
  | object =>
    rw [rules .objectPair rfl]
    simp [Rule.Accepts, Kind.isPrimitive]
  | record =>
    rw [rules .recordPair rfl]
    simp [Rule.Accepts, Kind.isPrimitive]
  -- Two nodes for null, or two custom nodes, conform only if they are one.
  | null =>
    obtain ⟨i, rfl⟩ := form_of_kind? kindA
    rw [rules .otherwise rfl]
    simp [Rule.Accepts, Kind.isPrimitive, Rule.PairFits]
  | custom =>
    obtain ⟨i, label, predicate, target, rfl⟩ := form_of_kind? kindA
    rw [rules .customPair rfl]
    simp [Rule.Accepts, Kind.isPrimitive, Rule.PairFits, apart]
  | literal => exact absurd rfl literal
  | _ => cases flat

/-- A tame field must be there. -/
theorem fieldFits_iff {fields : List (String × Schema)} {f : String × Schema}
    (source : ∀ g ∈ fields, Everywhere (IsTameIn heap) g.2)
    (target : Everywhere (IsTameIn heap) f.2) :
    Rule.FieldFits Fits fields f ↔ ∃ s, fields.lookup f.1 = some s ∧ Fits s f.2 := by
  unfold Rule.FieldFits
  cases found : fields.lookup f.1 with
  | none => simp [omittable_of_tame target]
  | some s =>
    have tame := source (f.1, s) (mem_of_lookup found)
    simp [omittable_of_tame tame, present_of_tame tame, present_of_tame target]

end Schema

end Conformance
