/-
# Conformance.Proofs.Merging — an intersection of objects is compared like their merge.

An intersection of two objects stands for the object that has the fields of both.  As a source it is
asked about late: a wrapper or a union as target is taken apart first, by the rules that an object
goes through as well (`fits_of_undivided`).  What is left is compared with a merged object that
exists only for the moment, and failing that with either side.

Where the sides have no field in common, each of them has a part of the fields of the merge.  An
object with more fields conforms to whatever one with less conforms to (`fits_of_extends`), as long
as the target has no field that may be left out: there a missing field is better than a field of the
wrong type.  So the sides add nothing to what the merge is accepted by.

They can take something away.  Where the merge is refused, the sides are compared as well, and they
may go down further than there is room for.
-/
import Conformance.Proofs.Fieldwise
import Conformance.Proofs.Options
import Conformance.Proofs.Rearrangement
import Conformance.Proofs.Sharing
import Conformance.Proofs.Wrappers

namespace Conformance

namespace Schema

variable {a a' b s : Schema}

/-- What holds at every node holds of every subtree. -/
theorem Everywhere.nested {P : Schema → Prop} (h : Everywhere P s) :
    Everywhere (Everywhere P) s := by
  induction h with
  | intro here below ih => exact .intro (.intro here below) ih

/-! ## Targets that are taken apart first -/

/-- Objects and intersections. -/
def Composite (a : Schema) : Prop := a.kind? = some .object ∨ a.kind? = some .intersection

/-- **`Undivided s`** — a target that is neither a top nor a wrapper nor a union. -/
def Undivided (s : Schema) : Prop :=
  s.isTop = false ∧ (∀ w : Wrapper, s.kind? ≠ some w.kind) ∧ s.kind? ≠ some .union

theorem Composite.chosen_targetRule (ha : a.Composite) (w : Wrapper) :
    Rule.chosen false a.kind? (some w.kind) = w.targetRule := by
  refine Schema.chosen_targetRule ?_ ?_
  · rcases ha with kind | kind <;> simp [kind]
  · rcases ha with kind | kind <;> simp [isBottom, kind]

theorem Composite.chosen_unionTarget (ha : a.Composite) :
    Rule.chosen false a.kind? (some .union) = .unionTarget := by
  rcases ha with kind | kind <;> rw [kind] <;> rfl

theorem Composite.not_absence (ha : a.Composite) (w : Wrapper) :
    a.kind? ≠ some w.absence.kind := by
  rcases ha with kind | kind <;> cases w <;> simp [kind, Wrapper.absence, Plain.kind]

/-- **Wrappers and unions are taken apart alike.**  To pass from one source to another, it is enough
to look at the targets that are left. -/
theorem fits_of_undivided (ha : a.Composite) (ha' : a'.Composite)
    (h : Everywhere (fun s => (a.id.same s.id = true → Fits a' s) ∧
      (s.Undivided → a.id.same s.id = false → (∀ c ∈ s.children, Fits a c → Fits a' c) →
        Fits a s → Fits a' s)) b) (fits : Fits a b) : Fits a' b := by
  induction h with
  | @intro s here below ih =>
    cases same : a.id.same s.id with
    | true => exact here.1 same
    | false =>
      cases top : s.isTop with
      | true => exact fits_of_isTop top
      | false =>
        by_cases wrapped : ∃ w : Wrapper, s.kind? = some w.kind
        · obtain ⟨w, kind⟩ := wrapped
          obtain ⟨inner, inside⟩ := Option.isSome_iff_exists.mp (Rule.inside?_isSome_iff.mpr kind)
          obtain ⟨i, rfl⟩ := eq_wrap_of_inside? inside
          rw [fits_by _ same (ha.chosen_targetRule w), accepts_targetRule] at fits
          refine fits_of_accepts _ (ha'.chosen_targetRule w) (accepts_targetRule.mpr (.inr ?_))
          exact ih inner (.head _) (fits.resolve_left (ha.not_absence w))
        · by_cases union : s.kind? = some .union
          · obtain ⟨i, options, rfl⟩ := form_of_kind? union
            obtain ⟨o, ho, fits⟩ := (fits_by _ same ha.chosen_unionTarget).mp fits
            exact fits_of_accepts _ ha'.chosen_unionTarget ⟨o, ho, ih o ho fits⟩
          · exact here.2 ⟨top, not_exists.mp wrapped, union⟩ same ih fits

theorem Undivided.chosen_intersectionSource (h : s.Undivided) :
    Rule.chosen false (some .intersection) s.kind? = .intersectionSource := by
  obtain ⟨top, unwrapped, notUnion⟩ := h
  cases s with
  | plain i sort => cases sort <;> first | rfl | cases top
  | wrap i w => exact absurd rfl (unwrapped w)
  | union => exact absurd rfl notUnion
  | _ => rfl

/-! ## Objects with more fields -/

section Fields

variable {fields more : List (String × Schema)} {i j : Ident}

/-- Every field of the first object is found in the second, with the same type. -/
def Extends (fields more : List (String × Schema)) : Prop :=
  ∀ name s, fields.lookup name = some s → more.lookup name = some s

/-- Fields as a builder lets them through. -/
def FieldsSound (fields : List (String × Schema)) : Prop :=
  (fields.map Prod.fst).Nodup ∧ ∀ f ∈ fields, f.2.WellFormed

theorem WellFormed.fieldsSound (wf : (object i fields).WellFormed) : FieldsSound fields :=
  ⟨wf.here.2, fun _ hf => wf.child (List.mem_map_of_mem hf)⟩

theorem FieldsSound.merge (left : FieldsSound fields) (right : FieldsSound more) :
    FieldsSound (mergeFields fields more) := by
  refine ⟨nodup_names_mergeFields more left.1, fun f hf => ?_⟩
  exact (mem_mergeFields hf).elim (left.2 f) (right.2 f)

/-- **`Rigid s`** — no field may be left out, if the node is an object. -/
def Rigid : Schema → Prop
  | .object _ fields => ∀ f ∈ fields, f.2.omittable = false
  | _ => True

/-- An object conforms to one that asks for fields of its own. -/
theorem fits_of_found (sound : FieldsSound more) (among : Extends more fields) :
    Fits (object i fields) (object j more) := by
  refine fits_of_accepts .objectPair rfl fun f hf => ?_
  obtain ⟨m, made⟩ := (sound.2 f hf).present.here.1
  rw [Rule.FieldFits, among f.1 f.2 (lookup_of_mem sound.1 hf)]
  refine ⟨?_, fits_of_same (Ident.same_iff.mpr ⟨m, made, made⟩)⟩
  cases f.2.omittable with
  | true => exact .inl rfl
  | false => exact .inr rfl

/-- **An object with more fields conforms to whatever the one with less conforms to**, where no
field may be left out. -/
theorem fits_of_extends (sound : FieldsSound fields) (among : Extends fields more)
    (known : Everywhere (fun s => i.same s.id = true → s = object i fields) b)
    (rigid : Everywhere Rigid b) (fits : Fits (object i fields) b) : Fits (object j more) b := by
  refine fits_of_undivided (.inl rfl) (.inl rfl) ((known.and rigid).mono ?_) fits
  rintro s ⟨known, rigid⟩
  refine ⟨fun same => ?_, fun undivided apart below fits => ?_⟩
  · rw [known same]
    exact fits_of_found sound among
  · cases s with
    | object k asked =>
      have fieldwise := (fits_by .objectPair apart rfl).mp fits
      refine fits_of_accepts .objectPair rfl fun f hf => ?_
      have here : Rule.FieldFits Fits fields f := fieldwise f hf
      have required : f.2.omittable = false := rigid f hf
      rw [Rule.FieldFits] at here ⊢
      cases found : fields.lookup f.1 with
      | none =>
        rw [found, required] at here
        cases here
      | some t =>
        rw [found] at here
        rw [among f.1 t found]
        exact here
    | intersection k left right =>
      obtain ⟨fitsL, fitsR⟩ := (fits_by .intersectionTarget apart rfl).mp fits
      refine fits_of_accepts .intersectionTarget rfl ⟨below left ?_ fitsL, below right ?_ fitsR⟩
      · simp [children]
      · simp [children]
    | plain k sort =>
      -- Other targets refuse every object.
      cases sort with
      | any | unknown => cases undivided.1
      | string | number | boolean => cases (fits_by .primitiveFallback apart rfl).mp fits
      | bigint | symbol | undefined | null | never =>
        exact ((fits_by .otherwise apart rfl).mp fits).elim
    | wrap k w => exact absurd rfl (undivided.2.1 w)
    | union => exact absurd rfl undivided.2.2
    | bare | literal | enum | array | tuple | record | custom =>
      exact ((fits_by .otherwise apart rfl).mp fits).elim

/-- A node of the heap is found nowhere else in it. -/
theorem known_of_livesIn {heap : Heap} (lives : s.LivesIn heap) (livesB : b.LivesIn heap) :
    Everywhere (fun t => s.id.same t.id = true → t = s) b :=
  livesB.mono fun _ keeps same => (lives.here.eq_of_same keeps same).symm

end Fields

/-! ## The merge of two objects -/

section Merge

variable {heap : Heap} {i j k m : Ident} {fields more : List (String × Schema)}

theorem extends_merge_left (soundR : FieldsSound more)
    (disjoint : ∀ name ∈ fields.map Prod.fst, name ∉ more.map Prod.fst) :
    Extends fields (mergeFields fields more) := by
  intro name s found
  have fresh : more.lookup name = none := by
    rw [← Option.not_isSome_iff_eq_none, ← mem_names_iff_lookup]
    exact disjoint name (mem_names_iff_lookup.mpr (by simp [found]))
  rw [lookup_mergeFields soundR.1, fresh]
  exact found

theorem extends_merge_right (soundR : FieldsSound more) :
    Extends more (mergeFields fields more) := by
  intro name s found
  rw [lookup_mergeFields soundR.1, found]
  rfl

variable (wfL : (object i fields).WellFormed) (wfR : (object j more).WellFormed)
  (disjoint : ∀ name ∈ fields.map Prod.fst, name ∉ more.map Prod.fst)
  (livesB : b.LivesIn heap) (rigid : Everywhere Rigid b)

include wfL wfR disjoint

/-- The merge conforms to the intersection. -/
theorem fits_merge_intersection :
    Fits (object m (mergeFields fields more))
      (intersection k (object i fields) (object j more)) := by
  refine fits_of_accepts .intersectionTarget rfl ⟨?_, ?_⟩
  · exact fits_of_found wfL.fieldsSound (extends_merge_left wfR.fieldsSound disjoint)
  · exact fits_of_found wfR.fieldsSound (extends_merge_right wfR.fieldsSound)

include livesB rigid

/-- **The sides add nothing**: what takes the intersection takes the merge. -/
theorem fits_merge_of_intersection
    (lives : (intersection k (object i fields) (object j more)).LivesIn heap)
    (fits : Fits (intersection k (object i fields) (object j more)) b) :
    Fits (object m (mergeFields fields more)) b := by
  refine fits_of_undivided (.inr rfl) (.inl rfl) ((livesB.and rigid).nested.mono ?_) fits
  intro s hs
  have livesS : s.LivesIn heap := hs.mono fun _ h => h.1
  have rigidS : Everywhere Rigid s := hs.mono fun _ h => h.2
  refine ⟨fun same => ?_, fun undivided apart _ fits => ?_⟩
  · rw [(known_of_livesIn lives livesS).here same]
    exact fits_merge_intersection wfL wfR disjoint
  · have livesL : (object i fields).LivesIn heap := lives.child (by simp [children])
    have livesR : (object j more).LivesIn heap := lives.child (by simp [children])
    rcases (fits_by _ apart undivided.chosen_intersectionSource).mp fits with both | left | right
    · refine fits_of_extends (wfL.fieldsSound.merge wfR.fieldsSound) (fun _ _ found => found) ?_
        rigidS both
      -- The object that is made for the moment is no node of the target.
      refine livesS.mono fun _ _ same => ?_
      obtain ⟨_, made, -⟩ := Ident.same_iff.mp same
      cases made
    · exact fits_of_extends wfL.fieldsSound (extends_merge_left wfR.fieldsSound disjoint)
        (known_of_livesIn livesL livesS) rigidS left
    · exact fits_of_extends wfR.fieldsSound (extends_merge_right wfR.fieldsSound)
        (known_of_livesIn livesR livesS) rigidS right

omit disjoint in
/-- What takes the merge takes the intersection. -/
theorem fits_intersection_of_merge
    (lives : (object m (mergeFields fields more)).LivesIn heap)
    (fits : Fits (object m (mergeFields fields more)) b) :
    Fits (intersection k (object i fields) (object j more)) b := by
  have sound := wfL.fieldsSound.merge wfR.fieldsSound
  refine fits_of_undivided (.inl rfl) (.inr rfl) ((livesB.and rigid).nested.mono ?_) fits
  intro s hs
  have livesS : s.LivesIn heap := hs.mono fun _ h => h.1
  refine ⟨fun same => ?_, fun undivided _ _ fits => ?_⟩
  · rw [(known_of_livesIn lives livesS).here same]
    exact fits_of_accepts .intersectionSource rfl (.inl (fits_of_found sound fun _ _ h => h))
  · refine fits_of_accepts _ undivided.chosen_intersectionSource (.inl ?_)
    exact fits_of_extends sound (fun _ _ found => found) (known_of_livesIn lives livesS)
      (hs.mono fun _ h => h.2) fits

end Merge

end Schema

namespace Policy

open Schema

section Merge

variable {p : Policy} {n room : Nat} {depth : Int} {i j k m : Ident}
  {fields more : List (String × Schema)}

/-- An object has the fields of its own that another one asks for, at one node each. -/
theorem outcome_check_found (sound : FieldsSound more) (among : Extends more fields)
    (space : p.stack.most + 3 ≤ room) :
    (p.check (n + 2) room depth (object i fields).value (object j more).value).outcome =
      .ok true := by
  cases same : i.same j with
  | true => exact outcome_check_same same (space_of_nothing rfl (by omega))
  | false =>
    refine (outcome_check_objects same (by omega)).mpr fun f hf => ?_
    rw [Frame.fieldConforms_self (among f.1 f.2 (lookup_of_mem sound.1 hf))]
    exact outcome_check_self (sound.2 f hf).present.here.1
      (show p.stack.most ≤ room - 3 by omega)

/-- The merge conforms to the intersection, whatever the limits leave room for. -/
theorem outcome_check_merge (wfL : (object i fields).WellFormed) (wfR : (object j more).WellFormed)
    (disjoint : ∀ name ∈ fields.map Prod.fst, name ∉ more.map Prod.fst)
    (space : p.stack.most + 6 ≤ room) :
    (p.check (n + 3) room depth (object m (mergeFields fields more)).value
      (intersection k (object i fields) (object j more)).value).outcome = .ok true := by
  have here : p.callsFor (object m (mergeFields fields more)).value
      (intersection k (object i fields) (object j more)).value ≤ room :=
    space_of_nothing rfl (by omega)
  cases same : m.same k with
  | true => exact outcome_check_same same here
  | false =>
    have chosen : (object m (mergeFields fields more)).rule
        (intersection k (object i fields) (object j more)) = .intersectionTarget := by
      rw [Schema.rule, show (object m (mergeFields fields more)).id.same
        (intersection k (object i fields) (object j more)).id = false from same]
      rfl
    have asks (sub : Compare) : Rule.decide sub (object m (mergeFields fields more)).value
        (intersection k (object i fields) (object j more)).value .intersectionTarget =
        some <$> Run.both
          (sub (object m (mergeFields fields more)).value (object i fields).value)
          (sub (object m (mergeFields fields more)).value (object j more).value) := by
      rw [Rule.decide, Rule.intersectionTargetOf, leftSide?_value, rightSide?_value]
      rfl
    rw [check_outcome here (by rw [chosen]; exact asks _), Run.outcome_both_eq_true]
    have below : p.stack.most + 3 ≤ room - 3 := by omega
    constructor
    · exact outcome_check_found wfL.fieldsSound (extends_merge_left wfR.fieldsSound disjoint) below
    · exact outcome_check_found wfR.fieldsSound (extends_merge_right wfR.fieldsSound) below

end Merge

/-- **An intersection of objects is compared like their merge.**  The objects have no field in
common, and no object in the target has a field that may be left out.  The outcomes are the same
unless exactly one of the comparisons is given up for lack of room, which does not happen to trees
that are not too high or under a limit that is not too high.  The merge conforms to the intersection
under every limit that lets its fields be seen. -/
theorem conforms_intersection_eq_merge {heap : Heap} (stack : Stack) (i j k m : Ident)
    (fields more : List (String × Schema)) (b : Schema) (deepest : Int) (trace : Bool)
    (wfL : (object i fields).WellFormed) (wfR : (object j more).WellFormed)
    (disjoint : ∀ name ∈ fields.map Prod.fst, name ∉ more.map Prod.fst)
    (rigid : Everywhere Rigid b)
    (livesI : (intersection k (object i fields) (object j more)).LivesIn heap)
    (livesM : (object m (mergeFields fields more)).LivesIn heap) (livesB : b.LivesIn heap) :
    let both := intersection k (object i fields) (object j more)
    let merge := object m (mergeFields fields more)
    ((both.height + b.height : Int) ≤ deepest →
      (((upTo stack deepest trace).Overflows both.value b.value ↔
          (upTo stack deepest trace).Overflows merge.value b.value) →
        ((upTo stack deepest trace).conforms both.value b.value).outcome =
          ((upTo stack deepest trace).conforms merge.value b.value).outcome) ∧
      (5 * (both.height + b.height) + stack.most ≤ stack.whole ∨
          5 * (deepest + 1) + stack.most ≤ stack.whole →
        ¬ (upTo stack deepest trace).Overflows both.value b.value ∧
          ¬ (upTo stack deepest trace).Overflows merge.value b.value)) ∧
    (2 ≤ deepest →
      ((upTo stack deepest trace).conforms merge.value both.value).outcome = .ok true) := by
  intro both merge
  have lower : merge.height < both.height :=
    height_merged_lt (height_lt_of_mem (.head _)) (height_lt_of_mem (.tail _ (.head _)))
  have ample := stack.ample
  refine ⟨fun deep => ⟨fun alike => ?_, fun bound => ⟨?_, ?_⟩⟩, fun deep => ?_⟩
  · have fits : Fits both b ↔ Fits merge b :=
      ⟨fits_merge_of_intersection wfL wfR disjoint livesB rigid livesI,
        fits_intersection_of_merge wfL wfR livesB rigid livesM⟩
    exact conforms_outcome_eq_of_fits deep (by omega) fits alike
  · refine not_overflows_of_room (holdsLiterals_of_children rfl fun c hc => ?_) ?_
    · rcases List.mem_pair.mp hc with rfl | rfl
      · exact wfL.holdsLiterals
      · exact wfR.holdsLiterals
    · rwa [height_value, height_value]
  · refine not_overflows_of_room (holdsLiterals_of_children rfl fun c hc => ?_)
      (bound.imp_left fun low => ?_)
    · obtain ⟨f, hf, rfl⟩ := List.mem_map.mp hc
      rcases mem_mergeFields hf with hf | hf
      · exact WellFormed.holdsLiterals (wfL.child (List.mem_map_of_mem hf))
      · exact WellFormed.holdsLiterals (wfR.child (List.mem_map_of_mem hf))
    · rw [height_value, height_value]
      omega
  · obtain ⟨n, levels⟩ : ∃ n, (upTo stack deepest trace).levelsFrom 0 = n + 3 :=
      ⟨deepest.toNat - 2, by rw [levelsFrom_upTo]; omega⟩
    rw [conforms_eq_true_iff_check, levels]
    exact outcome_check_merge wfL wfR disjoint (show stack.most + 6 ≤ stack.whole by omega)

/-- Two objects of one field each, against an intersection that names both of them, under a wrapper.
-/
theorem two_objects_conform_like_merge :
    let text : Schema := .plain (.made 0) .string
    let number : Schema := .plain (.made 1) .number
    let left : Schema := .object (.made 2) [("x", text)]
    let right : Schema := .object (.made 3) [("y", number)]
    let both : Schema := .intersection (.made 4) left right
    let merge : Schema := .object (.made 5) [("x", text), ("y", number)]
    let b : Schema := .wrap (.made 7) .nullable (.union (.made 6) [text, both])
    left.WellFormed ∧ right.WellFormed ∧ Everywhere Rigid b ∧
      ((upTo .standard 6 false).conforms both.value b.value).outcome =
        ((upTo .standard 6 false).conforms merge.value b.value).outcome ∧
      ((upTo .standard 2 false).conforms merge.value both.value).outcome = .ok true := by
  intro text number left right both merge b
  have wfL : left.WellFormed := by
    simp [WellFormed, left, text, IsSound, PartsSound, Schema.id]
  have wfR : right.WellFormed := by
    simp [WellFormed, right, number, IsSound, PartsSound, Schema.id]
  have rigid : Everywhere Rigid b := by
    simp [b, both, left, right, text, number, Rigid, omittable]
  let heap : Heap :=
    .ofNodes [text, number, left, right, both, merge, .union (.made 6) [text, both], b]
  have lives : both.LivesIn heap ∧ merge.LivesIn heap ∧ b.LivesIn heap := by
    simp [LivesIn, heap, b, both, merge, left, right, text, number, Heap.Keeps, Schema.id, listed,
      Heap.ofNodes]
  have alike (deepest : Int) := conforms_intersection_eq_merge .standard (.made 2) (.made 3) (.made 4)
    (.made 5) [("x", text)] [("y", number)] b deepest false wfL wfR (by simp) rigid lives.1
    lives.2.1 lives.2.2
  have held := ((alike 6).1 (by decide)).2 (.inr (by decide))
  exact ⟨wfL, wfR, rigid, ((alike 6).1 (by decide)).1 (iff_of_false held.1 held.2),
    (alike 2).2 (by decide)⟩

end Policy

/-! ## A side that leads too far -/

namespace Schema

/-- An object with the field `a`. -/
def oneField (n : Nat) (s : Schema) : Schema := .object (.made n) [("a", s)]

/-- An object with a field of its own. -/
def otherField : Schema := .object (.made 5) [("y", .plain (.made 8) .string)]

/-- The intersection of both. -/
def fieldsApart (s : Schema) : Schema := .intersection (.made 11) (oneField 2 s) otherField

/-- Their merge. -/
def fieldsTogether (s : Schema) : Schema :=
  .object (.made 14) [("a", s), ("y", .plain (.made 8) .string)]

/-- A target that refuses the merge by a short way and a side of the intersection by a long one. -/
def refusal (t : Schema) : Schema :=
  .intersection (.made 20) (.union (.made 23) [otherField, oneField 26 t])
    (.plain (.made 29) .never)

/-- The refusal, and then a top. -/
def refusalOrTop (t : Schema) : Schema :=
  .union (.made 17) [refusal t, .plain (.made 32) .unknown]

section Nodes

variable {P : Schema → Prop} {s t : Schema}

theorem everywhere_fieldsApart :
    Everywhere P (fieldsApart s) ↔
      (∀ x ∈ [fieldsApart s, oneField 2 s, otherField, .plain (.made 8) .string], P x) ∧
        Everywhere P s := by
  simp only [fieldsApart, oneField, otherField, everywhere_intersection, everywhere_object,
    List.mem_cons, List.not_mem_nil, or_false, forall_eq, everywhere_plain, forall_eq_or_imp]
  tauto

theorem everywhere_fieldsTogether :
    Everywhere P (fieldsTogether s) ↔
      (∀ x ∈ [fieldsTogether s, .plain (.made 8) .string], P x) ∧ Everywhere P s := by
  simp only [fieldsTogether, everywhere_object, List.mem_cons, List.not_mem_nil, or_false,
    forall_eq_or_imp, forall_eq, everywhere_plain]
  tauto

theorem everywhere_refusalOrTop :
    Everywhere P (refusalOrTop t) ↔
      (∀ x ∈ [refusalOrTop t, refusal t,
        .union (.made 23) [otherField, oneField 26 t], otherField, .plain (.made 8) .string,
        oneField 26 t, .plain (.made 29) .never, .plain (.made 32) .unknown], P x) ∧
        Everywhere P t := by
  simp only [refusalOrTop, refusal, otherField, oneField, everywhere_union, List.mem_cons,
    List.not_mem_nil, or_false, forall_eq_or_imp, everywhere_intersection, everywhere_object,
    forall_eq, everywhere_plain]
  tauto

theorem height_fieldsApart : (fieldsApart s).height = s.height + 2 := by
  simp [fieldsApart, oneField, otherField, height, heightOverFields, heightOverField]

theorem height_refusalOrTop : (refusalOrTop t).height = t.height + 4 := by
  simp [refusalOrTop, refusal, oneField, otherField, height, heightOver, heightOverFields,
    heightOverField]

end Nodes

/-- The heap of two towers of tuples and of the objects over them. -/
def heapOfSides : Heap where
  node n :=
    if n % 3 < 2 then tuples 3 (n % 3) (n / 3)
    else (Heap.ofNodes [oneField 2 (tuples 3 0 2000), otherField, .plain (.made 8) .string,
      fieldsApart (tuples 3 0 2000), fieldsTogether (tuples 3 0 2000),
      refusalOrTop (tuples 3 1 2000), refusal (tuples 3 1 2000),
      .union (.made 23) [otherField, oneField 26 (tuples 3 1 2000)], oneField 26 (tuples 3 1 2000),
      .plain (.made 29) .never, .plain (.made 32) .unknown]).node n
  cls _ := .base .object

end Schema

namespace Policy

open Schema

/-- The merge is refused without a look at its first field. -/
theorem conforms_fieldsTogether (s t : Schema) :
    ((upTo .standard 100000 false).conforms (fieldsTogether s).value
      (refusalOrTop t).value).outcome = .ok true := by
  rfl

section Overflow

/-- A comparison on the way down, under a limit that is out of reach. -/
abbrev searching (n room : Nat) (depth : Int) (a b : Schema) : Run Bool :=
  (upTo .standard 100000 false).check n room depth a.value b.value

variable {n i j : Nat} {s t : Schema}
  (deep : (searching (n + 1) (985 - 19) 5 (tuple (.made i) [s]) (tuple (.made j) [t])).Exhausted)

include deep

theorem exhausted_oneField :
    (searching (n + 2) (985 - 16) 4 (oneField 2 (tuple (.made i) [s]))
      (oneField 26 (tuple (.made j) [t]))).Exhausted := by
  have asked : (searching (n + 2) (985 - 16) 4 (oneField 2 (tuple (.made i) [s]))
      (oneField 26 (tuple (.made j) [t]))).outcome =
      ([entry ("a", tuple (.made j) [t])].allM (Rule.fieldConforms
        ((upTo .standard 100000 false).check (n + 1) (985 - 19) 5)
        ([("a", tuple (.made i) [s])].map entry))).outcome :=
    check_outcome (space_of_nothing rfl (by decide)) rfl
  rw [Run.Exhausted, asked, List.allM_cons]
  exact Run.error_bind.mpr (.inl deep)

/-- A side is asked about the long way. -/
theorem exhausted_oneField_refusal :
    (searching (n + 4) (985 - 8) 2 (oneField 2 (tuple (.made i) [s]))
      (refusal (tuple (.made j) [t]))).Exhausted := by
  let side := oneField 2 (tuple (.made i) [s])
  let options := Schema.union (.made 23) [otherField, oneField 26 (tuple (.made j) [t])]
  have first : (searching (n + 3) (985 - 11) 3 side options).Exhausted := by
    rw [Run.Exhausted, outcome_check_into_union rfl (space_of_nothing rfl (by decide))]
    exact Run.Exhausted.anyM (l := [otherField.value]) (List.forall_mem_singleton.mpr rfl)
      (exhausted_oneField deep)
  have asked : (searching (n + 4) (985 - 8) 2 side (refusal (tuple (.made j) [t]))).outcome =
      (Run.both (searching (n + 3) (985 - 11) 3 side options)
        (searching (n + 3) (985 - 11) 3 side (plain (.made 29) .never))).outcome :=
    check_outcome (space_of_nothing rfl (by decide)) rfl
  rw [Run.Exhausted, asked]
  exact Run.error_bind.mpr (.inl first)

/-- The intersection falls back on its side. -/
theorem exhausted_fieldsApart :
    (searching (n + 6) 985 0 (fieldsApart (tuple (.made i) [s]))
      (refusalOrTop (tuple (.made j) [t]))).Exhausted := by
  let side := oneField 2 (tuple (.made i) [s])
  let target := refusal (tuple (.made j) [t])
  have first : (searching (n + 5) (985 - 5) 1 (fieldsApart (tuple (.made i) [s]))
      target).Exhausted := by
    let merge := merged [("a", tuple (.made i) [s])] [("y", .plain (.made 8) .string)]
    have asked : (searching (n + 5) (985 - 5) 1 (fieldsApart (tuple (.made i) [s]))
        target).outcome =
        (Run.either (searching (n + 4) (985 - 8) 2 merge target)
          (Run.either (searching (n + 4) (985 - 8) 2 side target)
            (searching (n + 4) (985 - 8) 2 otherField target))).outcome :=
      check_outcome (space_of_nothing rfl (by decide)) rfl
    have refused : (searching (n + 4) (985 - 8) 2 merge target).outcome = .ok false := rfl
    rw [Run.Exhausted, asked]
    refine Run.error_bind.mpr (.inr ⟨false, refused, ?_⟩)
    exact Run.error_bind.mpr (.inl (exhausted_oneField_refusal deep))
  rw [Run.Exhausted, refusalOrTop, outcome_check_into_union rfl (space_of_nothing rfl (by decide))]
  exact Run.Exhausted.anyM (l := []) (by simp) first

end Overflow

/-- **A side that leads too far.**  The merge of two objects is taken by the last option of a union.
Their intersection has to be refused by the first one, and its side is compared there with an object
over another tower of tuples. -/
theorem side_given_up :
    let left := oneField 2 (tuples 3 0 2000)
    let both := fieldsApart (tuples 3 0 2000)
    let merge := fieldsTogether (tuples 3 0 2000)
    let b := refusalOrTop (tuples 3 1 2000)
    both = .intersection (.made 11) left otherField ∧
      merge = .object (.made 14)
        (mergeFields [("a", tuples 3 0 2000)] [("y", .plain (.made 8) .string)]) ∧
      left.WellFormed ∧ otherField.WellFormed ∧ b.WellFormed ∧ Everywhere Rigid b ∧
      both.LivesIn heapOfSides ∧ merge.LivesIn heapOfSides ∧ b.LivesIn heapOfSides ∧
      (both.height + b.height : Int) ≤ 100000 ∧
      ((upTo .standard 100000 false).conforms merge.value b.value).outcome = .ok true ∧
      ((upTo .standard 100000 false).conforms both.value b.value).outcome = .ok false := by
  intro left both merge b
  have wf (first : Nat) : Everywhere IsSound (tuples 3 first 2000) := tuples_wellFormed 3 first 2000
  have lives {first : Nat} (h : first < 2) : Everywhere heapOfSides.Keeps (tuples 3 first 2000) :=
    tuples_livesIn_of_mod (fun _ low => if_pos low) h 2000
  have rigid : Everywhere Rigid (tuples 3 1 2000) := by
    refine everywhere_tower (by simp [Rigid]) (fun n s _ hs => ?_) 2000
    exact everywhere_tuple.mpr ⟨trivial, List.forall_mem_singleton.mpr hs⟩
  have required : (tuples 3 1 2000).omittable = false := rfl
  have overflows : (upTo .standard 100000 false).Overflows both.value b.value := by
    have deep : Descends (5 * 2000) 2000 (tuples 3 0 2000) (tuples 3 1 2000) :=
      descends_tuples (by decide) 2000
    exact exhausted_fieldsApart (n := 99995) (check_of_descends deep (by decide))
  refine ⟨rfl, rfl, ?_, ?_, ?_, ?_, ?_, ?_, ?_, ?_, conforms_fieldsTogether _ _, ?_⟩
  · simp only [WellFormed, left, oneField, everywhere_object, List.forall_mem_singleton]
    exact ⟨⟨⟨2, rfl⟩, by simp [PartsSound]⟩, wf 0⟩
  · simp [WellFormed, otherField, IsSound, PartsSound, Schema.id]
  · refine everywhere_refusalOrTop.mpr ⟨?_, wf 1⟩
    simp [refusalOrTop, refusal, oneField, otherField, IsSound, PartsSound, Schema.id]
  · refine everywhere_refusalOrTop.mpr ⟨?_, rigid⟩
    simp only [List.forall_mem_cons]
    exact ⟨trivial, trivial, trivial, by simp [Rigid, otherField, omittable], trivial,
      List.forall_mem_singleton.mpr required, trivial, trivial, by simp⟩
  · refine everywhere_fieldsApart.mpr ⟨?_, lives (by decide)⟩
    simp only [List.forall_mem_cons]
    exact ⟨keeps_of_node (n := 11) rfl rfl rfl, keeps_of_node (n := 2) rfl rfl rfl,
      keeps_of_node (n := 5) rfl rfl rfl, keeps_of_node (n := 8) rfl rfl rfl, by simp⟩
  · refine everywhere_fieldsTogether.mpr ⟨?_, lives (by decide)⟩
    simp only [List.forall_mem_cons]
    exact ⟨keeps_of_node (n := 14) rfl rfl rfl, keeps_of_node (n := 8) rfl rfl rfl, by simp⟩
  · refine everywhere_refusalOrTop.mpr ⟨?_, lives (by decide)⟩
    simp only [List.forall_mem_cons]
    exact ⟨keeps_of_node (n := 17) rfl rfl rfl, keeps_of_node (n := 20) rfl rfl rfl,
      keeps_of_node (n := 23) rfl rfl rfl, keeps_of_node (n := 5) rfl rfl rfl,
      keeps_of_node (n := 8) rfl rfl rfl, keeps_of_node (n := 26) rfl rfl rfl,
      keeps_of_node (n := 29) rfl rfl rfl, keeps_of_node (n := 32) rfl rfl rfl, by simp⟩
  · rw [height_fieldsApart, height_refusalOrTop, tuples_height, tuples_height]
    decide
  · exact conforms_outcome_of_overflows overflows

end Policy

end Conformance
