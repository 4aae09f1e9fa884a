/-
# Conformance.Proofs.Soundness — a positive answer is about values.

Where the comparison answers true, every value that the source describes is described by the target.
Each rule is sound by itself, given that the comparison one level down is; the rules are looked at
one by one in `Accepts.includes`, and `Fits.includes` is the induction over levels.

Two conditions are needed.  `any` conforms to everything, so the source must not have it.  And a
field that the target allows to be missing may be missing from the *type* of the source, which says
nothing about the field in its values; so every object of the source must declare the names of such
fields.  `missing_field_accepted` shows that this cannot be left out.
-/
import Conformance.Proofs.Fits
import Conformance.Proofs.Meaning

namespace Conformance

/-! ## Listed values as values of a type -/

/-- An essence without the sign of a zero. -/
def Essence.unsigned : Essence → Essence
  | .number n _ => .number n false
  | e => e

namespace Value

theorem essence_false (signed : Bool) (v : Value) :
    v.essence false = (v.essence signed).unsigned := by
  unfold essence
  split
  · rfl
  · rfl
  · rfl
  · split <;> rfl

end Value

namespace Schema

variable {I : Interpretation} {heap : Heap} {signed : Bool} {a b : Schema} {v w : Value}

theorem essence_eq_of_sameValue (hv : v.ListedIn heap)
    (hw : w.ListedIn heap) (h : v.sameValue signed w = true) :
    v.essence false = w.essence false := by
  have one := (Value.sameValue_iff hv hw).mp h
  rw [Value.essence_false signed, one, ← Value.essence_false]

theorem admits_iff_of_listed (h : a.listed ≠ []) {x : Subject} :
    a.Admits I x ↔ ∃ v ∈ a.listed, x = .scalar (v.essence false) := by
  cases a with
  | literal | enum => exact Iff.rfl
  | _ => exact absurd rfl h

/-- A value that is one with a member of the list is described. -/
theorem admits_of_allAmong {values : List Value} (kept : b.ListsIn heap)
    (listed : ∀ v ∈ values, v.ListedIn heap)
    (h : Value.allAmong signed b.listed values = true) :
    ∀ v ∈ values, b.Admits I (.scalar (v.essence false)) := by
  intro v hv
  obtain ⟨m, hm, same⟩ := List.any_eq_true.mp (List.all_eq_true.mp h v hv)
  rw [admits_iff_of_listed (List.ne_nil_of_mem hm)]
  exact ⟨m, hm, congrArg _ (essence_eq_of_sameValue (listed v hv) (kept m hm) same)⟩

theorem admits_string (h : v.MayList) (text : v.isText = true) :
    Plain.string.Admits I (.scalar (v.essence false)) := by
  obtain ⟨mark, s, essence⟩ := (Value.isText_iff false h).mp text
  exact ⟨mark, s, congrArg _ essence⟩

theorem admits_boolean (h : v.MayList) (truth : v.isBool = true) :
    Plain.boolean.Admits I (.scalar (v.essence false)) := by
  obtain ⟨b, essence⟩ := (Value.isBool_iff false h).mp truth
  exact ⟨b, congrArg _ essence⟩

theorem admits_number {n : Numeric} {minus : Bool} (essence : v.essence false = .number n minus) :
    Plain.number.Admits I (.scalar (v.essence false)) := by
  refine ⟨n, ?_⟩
  rw [Value.essence_false false, essence]
  rfl

/-- A value of a primitive kind is described by the node of that kind. -/
theorem admits_of_inPrimitive {sort : Plain} (h : v.MayList)
    (primitive : v.inPrimitive (some sort.kind) = true) :
    sort.Admits I (.scalar (v.essence false)) := by
  cases sort with
  | string => exact admits_string h primitive
  | number =>
    obtain ⟨units, minus, essence⟩ := (Value.isFiniteNumber_iff false h).mp primitive
    exact admits_number essence
  | boolean => exact admits_boolean h primitive
  | bigint =>
    obtain ⟨k, minus, essence⟩ := Value.exists_ofInt_of_isInteger false h primitive
    refine ⟨k, ?_⟩
    rw [Value.essence_false false, essence]
    rfl
  | _ => cases primitive

/-- A value that an option takes is described by the option. -/
theorem admits_of_takes {o : Schema} (kept : o.ListsIn heap) (hv : v.ListedIn heap)
    (h : o.takes v = true) : o.Admits I (.scalar (v.essence false)) := by
  cases o with
  | literal id values =>
    obtain ⟨w, hw, same⟩ := List.any_eq_true.mp h
    exact ⟨w, hw, congrArg _ (essence_eq_of_sameValue (kept w hw) hv same).symm⟩
  | plain id sort =>
    cases sort with
    | string => exact admits_string hv.1 h
    | number =>
      obtain ⟨units, minus, essence⟩ := (Value.isFiniteNumber_iff false hv.1).mp h
      exact admits_number essence
    | boolean => exact admits_boolean hv.1 h
    | _ => cases h
  | _ => cases h

/-- Options that take every one of the values describe them. -/
theorem admits_union_of_takes {id : Ident} {options : List Schema} {values : List Value}
    (kept : ∀ o ∈ options, o.ListsIn heap)
    (listed : ∀ v ∈ values, v.ListedIn heap)
    (h : (values.all fun v => options.any fun o => o.takes v) = true) :
    ∀ v ∈ values, (union id options).Admits I (.scalar (v.essence false)) := by
  intro v hv
  obtain ⟨o, ho, taken⟩ := List.any_eq_true.mp (List.all_eq_true.mp h v hv)
  exact admits_union.mpr ⟨o, ho, admits_of_takes (kept o ho) (listed v hv) taken⟩

theorem admits_of_literalFits {values : List Value} (kept : b.ListsIn heap)
    (keptBelow : ∀ o ∈ b.children, o.ListsIn heap)
    (listed : ∀ v ∈ values, v.ListedIn heap) (h : literalFits values b = true) :
    ∀ v ∈ values, b.Admits I (.scalar (v.essence false)) := by
  cases b with
  | literal | enum => exact admits_of_allAmong kept listed h
  | plain id sort =>
    intro v hv
    obtain ⟨-, primitive⟩ := Bool.and_eq_true_iff.mp h
    exact admits_of_inPrimitive (listed v hv).1 (List.all_eq_true.mp primitive v hv)
  | union id options => exact admits_union_of_takes keptBelow listed h
  | _ => cases h

theorem admits_of_enumFits {values : List Value} (kept : b.ListsIn heap)
    (keptBelow : ∀ o ∈ b.children, o.ListsIn heap)
    (listed : ∀ v ∈ values, v.ListedIn heap) (h : enumFits values b = true) :
    ∀ v ∈ values, b.Admits I (.scalar (v.essence false)) := by
  cases b with
  | enum => exact admits_of_allAmong kept listed h
  | plain id sort =>
    intro v hv
    cases sort with
    | string => exact admits_string (listed v hv).1 (List.all_eq_true.mp h v hv)
    | number =>
      obtain ⟨n, minus, essence⟩ :=
        (Value.isNumber_iff false (listed v hv).1).mp (List.all_eq_true.mp h v hv)
      exact admits_number essence
    | _ => cases h
  | union id options => exact admits_union_of_takes keptBelow listed h
  | _ => cases h

/-! ## The undefined value, and fields that may be left out -/

theorem admits_of_kind? (sort : Plain) (h : a.kind? = some sort.kind) {x : Subject} :
    a.Admits I x ↔ sort.Admits I x := by
  cases sort <;> obtain ⟨id, rfl⟩ := form_of_kind? h <;> exact Iff.rfl

theorem includes_of_kind?_eq {k : Kind} (primitive : k.isPrimitive = true) (ha : a.kind? = some k)
    (hb : b.kind? = some k) : Includes I a b := by
  have plain : ∃ sort : Plain, sort.kind = k := by
    cases k with
    | string => exact ⟨.string, rfl⟩
    | number => exact ⟨.number, rfl⟩
    | boolean => exact ⟨.boolean, rfl⟩
    | bigint => exact ⟨.bigint, rfl⟩
    | symbol => exact ⟨.symbol, rfl⟩
    | _ => cases primitive
  obtain ⟨sort, rfl⟩ := plain
  intro x hx
  rw [admits_of_kind? sort ha] at hx
  rwa [admits_of_kind? sort hb]

theorem admits_undefined_of_undefinedFits (h : b.undefinedFits .undefined = true) :
    b.Admits I (.scalar .undefined) := by
  cases b with
  | plain id sort =>
    cases sort with
    | undefined => exact rfl
    | _ => cases h
  | union id options =>
    obtain ⟨o, ho, kind⟩ := List.any_eq_true.mp h
    refine admits_union.mpr ⟨o, ho, ?_⟩
    exact (admits_of_kind? .undefined (beq_iff_eq.mp kind)).mpr rfl
  | _ => cases h

/-- A field may be left out only if its type describes the undefined value. -/
theorem admits_undefined_of_omittable (h : a.omittable = true) :
    a.Admits I (.scalar .undefined) := by
  cases a with
  | wrap id wrapper inner =>
    cases wrapper with
    | optional => exact .inr rfl
    | nullable => cases h
  | union id options =>
    obtain ⟨o, ho, omits⟩ := List.any_eq_true.mp h
    refine admits_union.mpr ⟨o, ho, ?_⟩
    cases o with
    | plain id sort =>
      cases sort with
      | undefined => exact rfl
      | _ => cases omits
    | literal id values =>
      obtain ⟨v, hv, undef⟩ := List.any_eq_true.mp omits
      refine ⟨v, hv, ?_⟩
      cases v with
      | undefined => rfl
      | _ => cases undef
    | _ => cases omits
  | _ => cases h

theorem admits_of_present {x : Subject} (h : a.present.Admits I x) : a.Admits I x := by
  cases a with
  | wrap id wrapper inner =>
    cases wrapper with
    | optional => exact .inl h
    | nullable => exact h
  | _ => exact h

/-- A value of a field is one of the type that it has when present, or stands for its absence. -/
theorem present_or_undefined {x : Subject} (h : a.Admits I x) :
    a.present.Admits I x ∨ x = .scalar .undefined ∧ a.omittable = true := by
  cases a with
  | wrap id wrapper inner =>
    cases wrapper with
    | optional => exact h.imp_right fun undef => ⟨undef, rfl⟩
    | nullable => exact .inl h
  | _ => exact .inl h

/-- What a field describes, if the other field is declared at all. -/
theorem admitsField_of_fieldFits {fields : List (String × Schema)} {f : String × Schema}
    {entries : List (Subject × Subject)} (h : Rule.FieldFits (Includes I) fields f)
    (declared : f.2.omittable = true → f.1 ∈ fields.map Prod.fst)
    (holds : ∀ g ∈ fields, AdmitsField I g entries) : AdmitsField I f entries := by
  obtain ⟨name, t⟩ := f
  unfold Rule.FieldFits at h
  split at h
  · rename_i missing
    -- Nothing is known about the field: it is one that the source should have declared.
    obtain ⟨g, hg, same⟩ := List.mem_map.mp (declared h)
    have apart := List.lookup_eq_none_iff.mp missing g hg
    simp [same] at apart
  · rename_i s found
    obtain ⟨omits, below⟩ := h
    have source : AdmitsField I (name, s) entries := holds _ (mem_of_lookup found)
    unfold AdmitsField at source ⊢
    split at source
    · rename_i x _
      rcases present_or_undefined source with there | ⟨rfl, absent⟩
      · exact admits_of_present (below x there)
      · exact admits_undefined_of_omittable (omits.resolve_right (by simp [absent]))
    · exact omits.resolve_right (by simp [source])

/-! ## Sources and targets -/

/-- An object declares every one of the names. -/
def Declares (names : String → Prop) : Schema → Prop
  | .object _ fields => ∀ name, names name → name ∈ fields.map Prod.fst
  | _ => True

/-- Only fields with one of the names may be left out of an object. -/
def OmitsOnly (names : String → Prop) : Schema → Prop
  | .object _ fields => ∀ f ∈ fields, f.2.omittable = true → names f.1
  | _ => True

/-- A node of a source: it is not `any`, and objects declare what a target may leave out. -/
structure IsSource (heap : Heap) (names : String → Prop) (s : Schema) : Prop where
  keeps : heap.Keeps s
  lists : s.ListsIn heap
  notAny : s.kind? ≠ some .any
  declares : s.Declares names

/-- A node of a target. -/
structure IsTarget (heap : Heap) (names : String → Prop) (s : Schema) : Prop where
  keeps : heap.Keeps s
  lists : s.ListsIn heap
  omitsOnly : s.OmitsOnly names

variable {names : String → Prop}

/-- The node that stands for absence is a source. -/
theorem isSource_probe (w : Wrapper) : Everywhere (IsSource heap names) w.probe := by
  refine .intro ⟨⟨nofun, nofun⟩, nofun, ?_, trivial⟩ nofun
  cases w <;> exact nofun

theorem mem_names_putName {known : List (String × Schema)} {name new : String} {s : Schema}
    (h : name ∈ known.map Prod.fst) : name ∈ (putName known new s).map Prod.fst := by
  induction known with
  | nil => cases h
  | cons g rest ih =>
    rw [putName]
    rcases List.mem_cons.mp h with rfl | h
    · split <;> simp_all
    · split
      · exact List.mem_cons_of_mem _ h
      · exact List.mem_cons_of_mem _ (ih h)

theorem mem_names_mergeFields {fields more : List (String × Schema)} {name : String}
    (h : name ∈ fields.map Prod.fst) : name ∈ (mergeFields fields more).map Prod.fst := by
  induction more generalizing fields with
  | nil => exact h
  | cons f rest ih => exact ih (mem_names_putName h)

/-- The merged object of two sources is a source. -/
theorem isSource_merged {i j : Ident} {fields more : List (String × Schema)}
    (left : Everywhere (IsSource heap names) (object i fields))
    (right : Everywhere (IsSource heap names) (object j more)) :
    Everywhere (IsSource heap names) (merged fields more) := by
  refine .intro ⟨⟨nofun, nofun⟩, nofun, nofun, ?_⟩ ?_
  · intro name hname
    exact mem_names_mergeFields (left.here.declares name hname)
  · intro c hc
    obtain ⟨f, hf, rfl⟩ := List.mem_map.mp hc
    rcases mem_mergeFields hf with hf | hf
    · exact left.child (List.mem_map_of_mem hf)
    · exact right.child (List.mem_map_of_mem hf)

/-- A value with the fields of both objects has those of the merged one. -/
theorem admits_merged {i j : Ident} {fields more : List (String × Schema)} {x : Subject}
    (left : (object i fields).Admits I x) (right : (object j more).Admits I x) :
    (merged fields more).Admits I x := by
  rw [merged, admits_object]
  obtain ⟨entries, rfl, texts, holds⟩ := admits_object.mp left
  obtain ⟨entries', same, -, holds'⟩ := admits_object.mp right
  cases same
  refine ⟨entries, rfl, texts, fun f hf => ?_⟩
  rcases mem_mergeFields hf with hf | hf
  · exact holds f hf
  · exact holds' f hf

end Schema

/-! ## Rules -/

namespace Rule

open Schema

section Sound

variable {I : Interpretation} {heap : Heap} {names : String → Prop} {a b : Schema}

/-- The comparison one level down is sound. -/
def Sound (I : Interpretation) (heap : Heap) (names : String → Prop) (a b : Schema) : Prop :=
  Everywhere (IsSource heap names) a → Everywhere (IsTarget heap names) b → Includes I a b

theorem IntoWrapper.includes {w : Wrapper} (ha : Everywhere (IsSource heap names) a)
    (hb : Everywhere (IsTarget heap names) b) (h : IntoWrapper (Sound I heap names) w a b) :
    Includes I a b := by
  intro x hx
  unfold IntoWrapper at h
  split at h
  · rename_i inner hinner
    obtain ⟨id, rfl⟩ := eq_wrap_of_inside? hinner
    rcases h with absent | below
    · exact .inr ((admits_of_kind? w.absence absent).mp hx)
    · exact .inl (below ha (hb.child (List.mem_singleton_self _)) x hx)
  · exact h.elim

theorem FromWrapper.includes {w : Wrapper} (ha : Everywhere (IsSource heap names) a)
    (hb : Everywhere (IsTarget heap names) b) (h : FromWrapper (Sound I heap names) w a b) :
    Includes I a b := by
  intro x hx
  unfold FromWrapper at h
  split at h
  · rename_i s t hs ht
    obtain ⟨i, rfl⟩ := eq_wrap_of_inside? hs
    obtain ⟨j, rfl⟩ := eq_wrap_of_inside? ht
    have below := h (ha.child (List.mem_singleton_self _)) (hb.child (List.mem_singleton_self _))
    exact hx.imp_left (below x)
  · rename_i s hs _
    obtain ⟨i, rfl⟩ := eq_wrap_of_inside? hs
    -- A value of the wrapper is one of the inner node, or the one that stands for absence.
    rcases hx with inner | absent
    · exact h.1 (ha.child (List.mem_singleton_self _)) hb x inner
    · exact h.2 (isSource_probe w) hb x absent
  · exact h.elim

/-- Tuples place by place. -/
theorem forall₂_admits {ss ts : List Schema} {items : List Subject}
    (h : List.Forall₂ (Includes I) ss ts) (hs : List.Forall₂ (Admits I) ss items) :
    List.Forall₂ (Admits I) ts items := by
  induction h generalizing items with
  | nil => exact hs
  | cons here _ ih =>
    cases hs with
    | cons hx rest => exact .cons (here _ hx) (ih rest)

theorem PairFits.includes (ha : Everywhere (IsSource heap names) a)
    (hb : Everywhere (IsTarget heap names) b) (h : PairFits (Sound I heap names) a b) :
    Includes I a b := by
  intro x hx
  unfold PairFits at h
  split at h
  · rename_i i s j t
    obtain ⟨items, rfl, each⟩ := hx
    have below := h (ha.child (List.mem_singleton_self _)) (hb.child (List.mem_singleton_self _))
    exact ⟨items, rfl, fun y hy => below y (each y hy)⟩
  · rename_i i ss j ts
    obtain ⟨items, rfl, each⟩ := admits_tuple.mp hx
    refine admits_tuple.mpr ⟨items, rfl, forall₂_admits ?_ each⟩
    exact forall₂_imp_of_mem (fun s hs t ht below => below (ha.child hs) (hb.child ht)) h
  · rename_i i fields j more
    obtain ⟨entries, rfl, texts, holds⟩ := admits_object.mp hx
    refine admits_object.mpr ⟨entries, rfl, texts, fun f hf => ?_⟩
    refine admitsField_of_fieldFits ?_ ?_ holds
    · refine (h f hf).imp fun s hs below => below ?_ ?_
      · exact (ha.child (List.mem_map_of_mem (f := Prod.snd) hs)).present
      · exact (hb.child (List.mem_map_of_mem hf)).present
    · -- What the target may leave out is among the names that the source declares.
      intro omits
      exact ha.here.declares f.1 (hb.here.omitsOnly f hf omits)
  · rename_i i k v j l w
    obtain ⟨entries, rfl, each⟩ := hx
    have keys := h.1 (ha.child (by simp [children])) (hb.child (by simp [children]))
    have vals := h.2 (ha.child (by simp [children])) (hb.child (by simp [children]))
    exact ⟨entries, rfl, fun e he => ⟨keys _ (each e he).1, vals _ (each e he).2⟩⟩
  · exact h.elim

theorem FromSides.includes (ha : Everywhere (IsSource heap names) a)
    (hb : Everywhere (IsTarget heap names) b) (h : FromSides (Sound I heap names) a b) :
    Includes I a b := by
  intro x hx
  cases a with
  | intersection id left right =>
    have left' := ha.child (c := left) (by simp [children])
    have right' := ha.child (c := right) (by simp [children])
    rcases h with together | below | below
    · -- A value of both sides has the fields of both.
      unfold MergedFits at together
      split at together
      · exact together (isSource_merged left' right') hb x (admits_merged hx.1 hx.2)
      · exact together.elim
    · exact below left' hb x hx.1
    · exact below right' hb x hx.2
  | _ => exact h.elim

theorem IntoSides.includes (ha : Everywhere (IsSource heap names) a)
    (hb : Everywhere (IsTarget heap names) b) (h : IntoSides (Sound I heap names) a b) :
    Includes I a b := by
  intro x hx
  cases b with
  | intersection id left right =>
    exact ⟨h.1 ha (hb.child (by simp [children])) x hx, h.2 ha (hb.child (by simp [children])) x hx⟩
  | _ => exact h.elim

theorem isTop.includes (h : b.isTop = true) : Includes I a b := by
  intro x _
  rcases Bool.or_eq_true_iff.mp h with kind | kind
  · exact (admits_of_kind? .unknown (beq_iff_eq.mp kind)).mpr trivial
  · exact (admits_of_kind? .any (beq_iff_eq.mp kind)).mpr trivial

theorem isBottom.includes (notAny : a.kind? ≠ some .any) (h : a.isBottom = true) :
    Includes I a b := by
  intro x hx
  rcases Bool.or_eq_true_iff.mp h with kind | kind
  · exact ((admits_of_kind? .never (beq_iff_eq.mp kind)).mp hx).elim
  · exact absurd (beq_iff_eq.mp kind) notAny

/-- What an option describes, the union describes. -/
theorem includes_of_mem_options {o : Schema} (ho : o ∈ b.options) (h : Includes I a o) :
    Includes I a b := by
  intro x hx
  cases b with
  | union id options => exact admits_union.mpr ⟨o, ho, h x hx⟩
  | _ => cases ho

theorem options_includes (union : a.options ≠ []) (h : ∀ o ∈ a.options, Includes I o b) :
    Includes I a b := by
  intro x hx
  cases a with
  | union id options =>
    obtain ⟨o, ho, hox⟩ := admits_union.mp hx
    exact h o ho x hox
  | _ => exact absurd rfl union

/-- **Every rule is sound**, given that the comparison one level down is. -/
theorem Accepts.includes {r : Rule} (applies : r.applies (a.id.same b.id) a.kind? b.kind? = true)
    (reached : r ≠ .undefinedSourceNullUnion) (ha : Everywhere (IsSource heap names) a)
    (hb : Everywhere (IsTarget heap names) b) (h : Accepts (Sound I heap names) r a b) :
    Includes I a b := by
  have listed := ha.here.lists
  have kept := hb.here.lists
  have keptBelow : ∀ o ∈ b.children, o.ListsIn heap := fun o ho => (hb.child ho).here.lists
  have identical (same : a.id.same b.id = true) : Includes I a b := by
    rw [ha.here.keeps.eq_of_same hb.here.keeps same]
    exact fun x hx => hx
  have into {o : Schema} (ho : o ∈ b.options) (below : Sound I heap names a o) : Includes I a b :=
    includes_of_mem_options ho (below ha (hb.child (mem_children_of_mem_options ho)))
  cases r with
  | identity => exact identical h
  | customPair => exact identical h
  | topBottom => exact h.elim isTop.includes (isBottom.includes ha.here.notAny)
  | optionalTarget => exact IntoWrapper.includes ha hb h
  | nullableTarget => exact IntoWrapper.includes ha hb h
  | literalSource =>
    intro x hx
    obtain ⟨v, hv, rfl⟩ := (admits_iff_of_listed h.1).mp hx
    exact admits_of_literalFits kept keptBelow listed h.2 v hv
  | enumSource =>
    intro x hx
    obtain ⟨v, hv, rfl⟩ := (admits_iff_of_listed h.1).mp hx
    exact admits_of_enumFits kept keptBelow listed h.2 v hv
  | primitivePair =>
    rw [Rule.applies, Bool.and_eq_true, Option.any_eq_true] at applies
    obtain ⟨⟨k, hk, primitive⟩, -⟩ := applies
    exact includes_of_kind?_eq primitive hk (h ▸ hk)
  | primitiveFallback =>
    rw [Rule.applies, Option.any_eq_true] at applies
    obtain ⟨k, hk, fallback⟩ := applies
    exact includes_of_kind?_eq (Kind.isPrimitive_of_isFallback fallback) (h.trans hk) hk
  | undefinedSource =>
    intro x hx
    obtain rfl := (admits_of_kind? .undefined (beq_iff_eq.mp applies)).mp hx
    exact admits_undefined_of_undefinedFits h
  | undefinedSourceNullUnion => exact absurd rfl reached
  | optionalSource => exact FromWrapper.includes ha hb h
  | nullableSource => exact FromWrapper.includes ha hb h
  | arrayPair => exact PairFits.includes ha hb h
  | tuplePair => exact PairFits.includes ha hb h
  | objectPair => exact PairFits.includes ha hb h
  | recordPair => exact PairFits.includes ha hb h
  | arrayToUnion =>
    obtain ⟨o, ho, -, below⟩ := h
    exact into ho below
  | unionTarget =>
    obtain ⟨o, ho, below⟩ := h
    exact into ho below
  | unionSource =>
    refine options_includes h.1 fun o ho => ?_
    exact h.2 o ho (ha.child (mem_children_of_mem_options ho)) hb
  | intersectionSource => exact FromSides.includes ha hb h
  | intersectionTarget => exact IntoSides.includes ha hb h
  | unionToArray => exact h.elim
  | otherwise => exact h.elim

end Sound

end Rule

/-! ## Answers -/

namespace Schema

variable {I : Interpretation} {heap : Heap} {names : String → Prop} {a b : Schema}

theorem Assignable.includes {n : Nat} (h : Assignable n a b) : Rule.Sound I heap names a b := by
  induction n generalizing a b with
  | zero => exact h.elim
  | succ n ih =>
    intro ha hb
    have reached := Rule.chosen_ne_undefinedSourceNullUnion (a.id.same b.id) a.kind? b.kind?
    exact Rule.Accepts.includes (applies_rule a b) reached ha hb (h.imp fun _ _ _ => ih)

theorem Fits.includes (h : Fits a b) (ha : Everywhere (IsSource heap names) a)
    (hb : Everywhere (IsTarget heap names) b) : Includes I a b := by
  obtain ⟨n, h⟩ := h
  exact h.includes ha hb

end Schema

namespace Policy

open Schema

variable {p : Policy} {a b : Schema}

/-- **A positive answer is sound.**  Under every limit, if the comparison of two descriptors answers
true, whatever the first describes the second describes, under every interpretation.  The first has
no `any`, and its objects declare the fields that the second allows to be left out. -/
theorem includes_of_conforms (I : Interpretation) (heap : Heap) (names : String → Prop)
    (ha : a.WellFormed) (hb : b.WellFormed) (keptA : a.LivesIn heap) (keptB : b.LivesIn heap)
    (noAny : Everywhere (fun s => s.kind? ≠ some .any) a) (declares : Everywhere (Declares names) a)
    (omits : Everywhere (OmitsOnly names) b)
    (answer : (p.conforms a.value b.value).outcome = .ok true) : Includes I a b := by
  have source : Everywhere (IsSource heap names) a :=
    ((ha.and keptA).and (noAny.and declares)).mono fun _ h =>
      ⟨h.1.2, h.1.1.2.listsIn h.1.2, h.2.1, h.2.2⟩
  have target : Everywhere (IsTarget heap names) b :=
    ((hb.and keptB).and omits).mono fun _ h => ⟨h.1.2, h.1.1.2.listsIn h.1.2, h.2⟩
  exact (fits_of_conforms answer).includes source target

/-- Two objects together conform by their merged object, though neither does alone. -/
theorem mergedObject_included :
    let key : Schema := .plain (.made 0) .string
    let one : Schema := .literal (.made 1) [.int 1]
    let top : Schema := .plain (.made 2) .unknown
    let left : Schema := .object (.made 3) [("k", top), ("n", one)]
    let right : Schema := .object (.made 4) [("k", key)]
    let a : Schema := .intersection (.made 5) left right
    let optional : Schema := .wrap (.made 6) .optional key
    let number : Schema := .plain (.made 7) .number
    let b : Schema := .object (.made 8) [("k", optional), ("n", number)]
    (Policy.standard.conforms a.value b.value).outcome = .ok true ∧ ∀ I, Includes I a b := by
  intro key one top left right a optional number b
  refine ⟨rfl, fun I => ?_⟩
  refine includes_of_conforms (p := .standard) I
    (.ofNodes [key, one, top, left, right, a, optional, number, b]) (· = "k")
    ?_ ?_ ?_ ?_ ?_ ?_ ?_ rfl
  · simp [WellFormed, a, left, right, key, one, top, IsSound, PartsSound, Schema.id, Value.MayList,
      Value.isLiteral, Value.datum, Value.HasClass]
  · simp [WellFormed, b, optional, key, number, IsSound, PartsSound, Schema.id]
  · simp [LivesIn, a, left, right, key, one, top, Heap.Keeps, Heap.KeepsClass, Schema.id, listed,
      Heap.ofNodes]
  · simp [LivesIn, a, b, left, right, one, top, optional, key, number, Heap.Keeps, Schema.id,
      listed, Heap.ofNodes]
  · simp [a, left, right, key, one, top, kind?, Plain.kind]
  · simp [a, left, right, key, one, top, Declares]
  · simp [b, optional, key, number, OmitsOnly, omittable]

/-- **A field that the source does not declare.**  Its values may hold anything under the name, and
yet the comparison accepts the pair, because the target allows the field to be left out. -/
theorem missing_field_accepted :
    let a : Schema := .object (.made 0) []
    let text : Schema := .plain (.made 1) .string
    let optional : Schema := .wrap (.made 2) .optional text
    let b : Schema := .object (.made 3) [("k", optional)]
    (a.WellFormed ∧ b.WellFormed ∧ ∃ heap, a.LivesIn heap ∧ b.LivesIn heap) ∧
      Everywhere (fun s => s.kind? ≠ some .any) a ∧
      (Policy.standard.conforms a.value b.value).outcome = .ok true ∧ ∀ I, ¬ Includes I a b := by
  intro a text optional b
  refine ⟨⟨?_, ?_, .ofNodes [a, text, optional, b], ?_, ?_⟩, ?_, rfl, fun I included => ?_⟩
  · simp [WellFormed, a, IsSound, PartsSound, Schema.id]
  · simp [WellFormed, b, optional, text, IsSound, PartsSound, Schema.id]
  · simp [LivesIn, a, Heap.Keeps, Schema.id, listed, Heap.ofNodes]
  · simp [LivesIn, a, b, optional, text, Heap.Keeps, Schema.id, listed, Heap.ofNodes]
  · simp [a, kind?]
  -- The number five under the name is neither a text nor undefined.
  have five := included (.map [(.scalar (.text .plain "k"), .scalar (.number (.ofInt 5) false))])
    (admits_object.mpr ⟨_, rfl, by simp [Subject.isText], by simp⟩)
  obtain ⟨entries, same, -, holds⟩ := admits_object.mp five
  cases same
  have field := holds ("k", optional) (List.mem_singleton_self _)
  rcases field with ⟨mark, s, number⟩ | undef
  · cases number
  · cases undef

end Policy

end Conformance
