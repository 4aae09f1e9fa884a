/-
# Conformance.Proofs.Extension — objects with further fields.

Extending an object makes a new object that has the fields of the old one and those of a mapping.  A
name that both have keeps its place and takes the new type, new names follow in order, and every
type is the very node that was given.  So extending twice is extending once by both mappings
(`mergeFields_assoc`).

As a field is the same node in both objects, it is never looked into when they are compared.  The
new object conforms to the old one, and the old one to the new one exactly when every further field
may be left out, whatever the fields hold and under every limit that lets them be seen.
-/
import Conformance.Proofs.Merging
import Conformance.Session

namespace Conformance

/-! ## Fields put in the place of others -/

namespace Schema

section Names

variable {fields more further : List (String × Schema)}

theorem names_putName (known : List (String × Schema)) (name : String) (s : Schema) :
    (putName known name s).map Prod.fst =
      if name ∈ known.map Prod.fst then known.map Prod.fst else known.map Prod.fst ++ [name] := by
  induction known with
  | nil => simp [putName]
  | cons g rest ih =>
    rw [putName]
    by_cases here : g.1 = name
    · simp [here]
    · rw [if_neg here, List.map_cons, ih]
      by_cases later : name ∈ rest.map Prod.fst
      · simp [later]
      · simp [later, Ne.symm here]

/-- Known names keep their places, and new ones follow in order. -/
theorem names_mergeFields (distinct : (more.map Prod.fst).Nodup) :
    (mergeFields fields more).map Prod.fst =
      fields.map Prod.fst ++ (more.map Prod.fst).filter (· ∉ fields.map Prod.fst) := by
  induction more generalizing fields with
  | nil => simp [mergeFields]
  | cons f rest ih =>
    obtain ⟨fresh, distinct⟩ := List.nodup_cons.mp distinct
    have later : (mergeFields fields (f :: rest)).map Prod.fst = _ :=
      @ih (putName fields f.1 f.2) distinct
    rw [later, names_putName, List.map_cons]
    by_cases known : f.1 ∈ fields.map Prod.fst
    · rw [if_pos known, List.filter_cons_of_neg (by simpa using known)]
    · rw [if_neg known, List.filter_cons_of_pos (by simpa using known), List.append_assoc,
        List.singleton_append]
      congr 2
      refine List.filter_congr fun name hname => ?_
      have other : name ≠ f.1 := fun h => fresh (h ▸ hname)
      simp [other]

/-- Fields are determined by their names in order and by what stands under each of them. -/
theorem eq_of_names_of_lookup (names : fields.map Prod.fst = more.map Prod.fst)
    (distinct : (fields.map Prod.fst).Nodup)
    (found : ∀ name, fields.lookup name = more.lookup name) : fields = more := by
  have restored (l : List (String × Schema)) (h : (l.map Prod.fst).Nodup) :
      l = (l.map Prod.fst).filterMap fun name => (l.lookup name).map (name, ·) := by
    rw [List.filterMap_map]
    calc l = l.filterMap some := List.filterMap_some.symm
      _ = _ := List.filterMap_congr fun f hf => by simp [lookup_of_mem h hf]
  rw [restored fields distinct, restored more (names ▸ distinct), names]
  simp only [found]

theorem mergeFields_nil (distinct : (fields.map Prod.fst).Nodup) : mergeFields [] fields = fields := by
  refine eq_of_names_of_lookup ?_ (nodup_names_mergeFields fields List.nodup_nil) fun name => ?_
  · simp [names_mergeFields distinct]
  · simp [lookup_mergeFields distinct]

/-- **Fields are put in the place of others one after the other or all at once.** -/
theorem mergeFields_assoc (distinct : (fields.map Prod.fst).Nodup)
    (distinct₁ : (more.map Prod.fst).Nodup) (distinct₂ : (further.map Prod.fst).Nodup) :
    mergeFields (mergeFields fields more) further =
      mergeFields fields (mergeFields more further) := by
  have both : ((mergeFields more further).map Prod.fst).Nodup :=
    nodup_names_mergeFields further distinct₁
  refine eq_of_names_of_lookup ?_ ?_ fun name => ?_
  · rw [names_mergeFields distinct₂, names_mergeFields distinct₁, names_mergeFields both,
      names_mergeFields distinct₂, List.filter_append, List.append_assoc, List.filter_filter]
    congr 2
    refine List.filter_congr fun name _ => ?_
    by_cases known : name ∈ fields.map Prod.fst
    · simp [known]
    · simp [known]
  · exact nodup_names_mergeFields _ (nodup_names_mergeFields _ distinct)
  · rw [lookup_mergeFields distinct₂, lookup_mergeFields distinct₁, lookup_mergeFields both,
      lookup_mergeFields distinct₂, Option.or_assoc]

end Names

end Schema

/-! ## Making the object -/

open Schema

namespace Descriptor

/-- A node is let through as it is. -/
theorem acceptChild_value (s : Schema) : acceptChild s.value = pure (.ok s.value) := by
  cases s <;> rfl

theorem acceptFields_entries (fields : List (String × Schema)) :
    acceptFields (fields.map entry) = pure (.ok (fields.map entry)) := by
  induction fields with
  | nil => rfl
  | cons f rest ih =>
    rw [List.map_cons, acceptFields, ih, entry, acceptChild_value]
    rfl

/-- Fields with different names make an object, with the next identity. -/
theorem constructObject_entries {fields : List (String × Schema)}
    (distinct : (fields.map Prod.fst).Nodup) (next : Nat) :
    constructObject (fields.map entry) next =
      .ok ((object (.made next) fields).value, next + 1) := by
  have kept : Entries.merge [] (fields.map entry) = fields.map entry := by
    rw [← List.map_nil, merge_entries, mergeFields_nil distinct]
  have accepted : acceptPart (.of .object) .shape (.dict .transient (fields.map entry)) =
      pure (.ok (.frozen (fields.map entry))) := by
    simp only [acceptPart, Value.entries?, acceptFields_entries, pure_bind, Except.map, kept]
  have parts : acceptParts (.of .object) [("shape", .dict .transient (fields.map entry))] [.shape] =
      pure (.ok [(.shape, .frozen (fields.map entry))]) := by
    simp only [acceptParts, acceptArgument, Part.name, List.lookup_cons_self, accepted, pure_bind]
    rfl
  rw [Schema.value, fieldValues_eq, constructObject, construct,
    show (Model.of .object).parts = [.shape] from rfl, parts]
  rfl

end Descriptor

/-- An object is extended by putting the fields of the mapping over its own. -/
theorem Method.extendWith_object {i : Ident} {fields more : List (String × Schema)} {v : Value}
    (distinct : (fields.map Prod.fst).Nodup) (entries : v.entries? = some (more.map entry))
    (next : Nat) :
    extendWith ((object i fields).value.stored? .shape) v next =
      .ok ((object (.made next) (mergeFields fields more)).value, next + 1) := by
  have shape : (((object i fields).value.stored? .shape).getD .null).entries? =
      some (fields.map entry) := by
    rw [← fieldValues_eq]
    cases i <;> rfl
  rw [extendWith]
  simp only [shape, Descriptor.entriesOf, entries]
  rw [Build.bind_eq_of_ok rfl, merge_entries]
  exact Descriptor.constructObject_entries (nodup_names_mergeFields more distinct) next

namespace Scope

/-- **`Maps scope name fields`** — the name is bound to a mapping of these fields. -/
def Maps (scope : Scope) (name : String) (fields : List (String × Schema)) : Prop :=
  ∃ v, scope.find? name = some v ∧ v.entries? = some (fields.map entry)

theorem find?_bind_self (scope : Scope) (name : String) (v : Value) :
    (scope.bind name v).find? name = some v := by
  rw [find?, bind, lookup_putName, if_pos rfl]

theorem find?_bind_of_ne {scope : Scope} {name other : String} (v : Value) (apart : other ≠ name) :
    (scope.bind name v).find? other = scope.find? other := by
  rw [find?, bind, lookup_putName, if_neg apart]
  rfl

end Scope

namespace Expr

/-- **Extending an object** makes one object, of the fields put in the place of those it has. -/
theorem eval_extend {scope : Scope} {e : Expr} {name : String} {i : Ident} {next later : Nat}
    {fields more : List (String × Schema)} (distinct : (fields.map Prod.fst).Nodup)
    (made : e.eval scope next = .ok ((object i fields).value, later))
    (mapped : scope.Maps name more) :
    (Expr.call "extend" e [.ref name]).eval scope next =
      .ok ((object (.made later) (mergeFields fields more)).value, later + 1) := by
  obtain ⟨v, found, entries⟩ := mapped
  have argument : evalAll scope [.ref name] later = .ok ([v], later) := by
    simp only [evalAll, eval, found]
    rfl
  rw [eval, Build.bind_eq_of_ok made]
  show (Build.ofExcept (.ok (Callee.ofNode .extend (object i fields).value)) >>= _) later = _
  rw [Build.bind_eq_of_ok rfl, Build.bind_eq_of_ok argument]
  show (Build.assertCount Method.extend.signature 2 >>= _) later = _
  rw [Build.bind_eq_of_ok rfl]
  exact Method.extendWith_object distinct entries later

end Expr

theorem Session.run_bind {s : Session} {e : Expr} {v : Value} {next : Nat} (name : String)
    (quiet : Bool) (made : e.eval s.scope s.next = .ok (v, next)) :
    (s.run (.bind name e quiet)).1 = ⟨s.scope.bind name v, next⟩ := by
  rw [Session.run, Step.perform, Build.bind_eq_of_ok made]
  rfl

/-! ## Comparing the objects -/

namespace Policy

section Compare

variable {stack : Stack} {i j : Ident} {deepest : Int} {trace : Bool}
  {fields more : List (String × Schema)}

/-- An object has the fields that another one had before it. -/
theorem conforms_of_extends (deep : 1 ≤ deepest) (sound : FieldsSound more)
    (among : Extends more fields) :
    ((upTo stack deepest trace).conforms (object i fields).value (object j more).value).outcome =
      .ok true := by
  obtain ⟨n, levels⟩ : ∃ n, deepest.toNat = n + 1 := ⟨deepest.toNat - 1, by omega⟩
  have ample := stack.ample
  rw [conforms_eq_true_iff_check, levelsFrom_eq_succ (by omega), levels]
  exact outcome_check_found sound among (show stack.most + 3 ≤ stack.whole by omega)

/-- Further fields are all that an object lacks beside the one that has them as well. -/
theorem conforms_mergeFields_iff (deep : 1 ≤ deepest) (apart : i.same j = false)
    (sound : FieldsSound fields) (sound' : FieldsSound more)
    (disjoint : ∀ name ∈ fields.map Prod.fst, name ∉ more.map Prod.fst) :
    ((upTo stack deepest trace).conforms (object i fields).value
        (object j (mergeFields fields more)).value).outcome = .ok true ↔
      ∀ f ∈ more, f.2.omittable = true := by
  have lacked {f : String × Schema} (hf : f ∈ more) :
      FieldPasses stack deepest trace fields f ↔ f.2.omittable = true := by
    have missing : fields.lookup f.1 = none := by
      rw [← Option.not_isSome_iff_eq_none, ← mem_names_iff_lookup]
      exact fun known => disjoint f.1 known (List.mem_map_of_mem hf)
    rw [FieldPasses, fieldConforms_of_missing missing]
    show Except.ok _ = Except.ok true ↔ _
    rw [Except.ok.injEq]
  rw [conforms_objects_iff (by omega) apart]
  constructor
  · intro passes f hf
    have found : (mergeFields fields more).lookup f.1 = some f.2 :=
      extends_merge_right sound' f.1 f.2 (lookup_of_mem sound'.1 hf)
    exact (lacked hf).mp (passes f (mem_of_lookup found))
  · intro omittable f hf
    rcases mem_mergeFields hf with old | new
    · exact fieldPasses_self deep (lookup_of_mem sound.1 old) (sound.2 f old).present.here.1
    · exact (lacked new).mpr (omittable f new)

end Compare

/-- **Extending an object.**  The new object conforms to the old one.  The old one conforms to the
new one exactly when every further field may be left out.  Extending twice gives the fields that
extending once by both mappings gives, as the same nodes and in the same order.  A step that binds
the new object to a name leaves the old one as it is. -/
theorem conforms_extension (stack : Stack) {scope : Scope} {next n : Nat} {a p q r : String}
    {fields more further : List (String × Schema)} (wf : (object (.made n) fields).WellFormed)
    (sound : FieldsSound more) (sound' : FieldsSound further) (older : n < next)
    (bound : scope.find? a = some (object (.made n) fields).value) (first : scope.Maps p more)
    (second : scope.Maps q further)
    (both : ∃ v, scope.find? r = some v ∧
      v.entries? = some (Entries.merge (more.map entry) (further.map entry))) :
    let old := (object (.made n) fields).value
    let once : Expr := .call "extend" (.ref a) [.ref p]
    ∃ new twice whole,
      once.eval scope next = .ok (new, next + 1) ∧
      (Expr.call "extend" once [.ref q]).eval scope next = .ok (twice, next + 2) ∧
      (Expr.call "extend" (.ref a) [.ref r]).eval scope next = .ok (whole, next + 1) ∧
      twice.fields = whole.fields ∧
      (∀ x quiet, a ≠ x →
        (Session.run ⟨scope, next⟩ (.bind x once quiet)).1.scope.find? x = some new ∧
        (Session.run ⟨scope, next⟩ (.bind x once quiet)).1.scope.find? a = some old) ∧
      ((∀ name ∈ fields.map Prod.fst, name ∉ more.map Prod.fst) →
        ∀ (deepest : Int) (trace : Bool), 1 ≤ deepest →
          ((upTo stack deepest trace).conforms new old).outcome = .ok true ∧
          (((upTo stack deepest trace).conforms old new).outcome = .ok true ↔
            ∀ f ∈ more, f.2.value.omittable = .ok true)) := by
  have names : (fields.map Prod.fst).Nodup := wf.fieldsSound.1
  have referred : (Expr.ref a).eval scope next = .ok ((object (.made n) fields).value, next) := by
    simp only [Expr.eval, bound]
    rfl
  have made := Expr.eval_extend names referred first
  have again := Expr.eval_extend (nodup_names_mergeFields more names) made second
  have mapped : scope.Maps r (mergeFields more further) := by
    rw [Scope.Maps, ← merge_entries]
    exact both
  refine ⟨_, _, _, made, again, Expr.eval_extend names referred mapped, ?_, ?_, ?_⟩
  · rw [fields_value, fields_value, mergeFields_assoc names sound.1 sound'.1]
  · intro x quiet other
    rw [Session.run_bind x quiet made, Scope.find?_bind_of_ne _ other]
    exact ⟨Scope.find?_bind_self _ _ _, bound⟩
  · intro disjoint deepest trace deep
    have apart : Ident.same (.made n) (.made next) = false := by
      simp [Ident.same]
      omega
    refine ⟨conforms_of_extends deep wf.fieldsSound (extends_merge_left sound disjoint), ?_⟩
    rw [conforms_mergeFields_iff deep apart wf.fieldsSound sound disjoint]
    simp only [omittable_value, Except.ok.injEq]

/-- A point with a label is a point, and a point has no label. -/
theorem labelled_point_conforms :
    let number (n : Nat) : Schema := .plain (.made n) .number
    let text (n : Nat) : Schema := .plain (.made n) .string
    let point : Schema := .object (.made 2) [("x", number 0), ("y", number 1)]
    let scope : Scope := [("point", point.value), ("label", .dict (.made 4) [entry ("label", text 3)]),
      ("typed", .dict (.made 6) [entry ("x", text 5)]),
      ("both", .dict (.made 7) [entry ("label", text 3), entry ("x", text 5)])]
    ∃ new, (Expr.call "extend" (.ref "point") [.ref "label"]).eval scope 8 = .ok (new, 9) ∧
      ((upTo .standard 1 false).conforms new point.value).outcome = .ok true ∧
      ((upTo .standard 1 false).conforms point.value new).outcome ≠ .ok true := by
  intro number text point scope
  have wf : point.WellFormed := by
    simp [point, number, Schema.WellFormed, IsSound, PartsSound, Schema.id]
  have sound (name : String) (n : Nat) : FieldsSound [(name, text n)] := by
    simp [FieldsSound, text, Schema.WellFormed, IsSound, PartsSound, Schema.id]
  have bound : scope.find? "point" = some point.value := rfl
  have first : scope.Maps "label" [("label", text 3)] := ⟨_, rfl, rfl⟩
  have second : scope.Maps "typed" [("x", text 5)] := ⟨_, rfl, rfl⟩
  have both : ∃ v, scope.find? "both" = some v ∧ v.entries? =
      some (Entries.merge ([("label", text 3)].map entry) ([("x", text 5)].map entry)) :=
    ⟨_, rfl, rfl⟩
  obtain ⟨new, _, _, made, _, _, _, _, compared⟩ := conforms_extension .standard wf
    (sound "label" 3) (sound "x" 5) (show 2 < 8 by decide) bound first second both
  obtain ⟨back, forth⟩ := compared (by decide) 1 false (by decide)
  refine ⟨new, made, back, fun yes => ?_⟩
  have omittable := forth.mp yes _ List.mem_cons_self
  simp [omittable_value, text, Schema.omittable] at omittable

end Policy

end Conformance
