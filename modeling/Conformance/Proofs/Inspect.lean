/-
# Conformance.Proofs.Inspect — what is read off the node of a tree.

Every accessor of a dynamic value, applied to the node that a `Schema` stands for, answers without a
fault and with the part of the tree that it names.  Nothing later opens an accessor again.

The few definitions here say on trees what the comparison asks of a node beside its parts: whether
an option of a union takes a listed value, whether a field may be left out, what a field is once it
is there, and the object with the fields of two others.
-/
import Conformance.Proofs.Height
import Conformance.Proofs.Schema
import Mathlib.Data.List.Nodup

namespace Conformance

namespace Schema

/-! ## Kinds and identities -/

@[simp] theorem kind?_value (s : Schema) : s.value.kind? = s.kind? := by
  cases s <;> rfl

@[simp] theorem isOf_value (k : Kind) (s : Schema) : s.value.isOf k = (s.kind? == some k) := by
  rw [Value.isOf, kind?_value]

theorem ident?_value (s : Schema) : s.value.ident? = some s.id := by
  cases s <;> rfl

@[simp] theorem same_value (s t : Schema) : s.value.same t.value = s.id.same t.id := by
  rw [Value.same, ident?_value, ident?_value]

/-- How the nodes of a kind are made. -/
def Form (s : Schema) : Kind → Prop
  | .string => ∃ id, s = .plain id .string
  | .number => ∃ id, s = .plain id .number
  | .boolean => ∃ id, s = .plain id .boolean
  | .bigint => ∃ id, s = .plain id .bigint
  | .symbol => ∃ id, s = .plain id .symbol
  | .undefined => ∃ id, s = .plain id .undefined
  | .null => ∃ id, s = .plain id .null
  | .any => ∃ id, s = .plain id .any
  | .unknown => ∃ id, s = .plain id .unknown
  | .never => ∃ id, s = .plain id .never
  | .literal => ∃ id values, s = .literal id values
  | .enum => ∃ id values, s = .enum id values
  | .optional => ∃ id inner, s = .wrap id .optional inner
  | .nullable => ∃ id inner, s = .wrap id .nullable inner
  | .array => ∃ id element, s = .array id element
  | .tuple => ∃ id items, s = .tuple id items
  | .object => ∃ id fields, s = .object id fields
  | .record => ∃ id key val, s = .record id key val
  | .union => ∃ id options, s = .union id options
  | .intersection => ∃ id left right, s = .intersection id left right
  | .custom => ∃ id label predicate target, s = .custom id label predicate target

theorem form_of_kind? {s : Schema} {k : Kind} (h : s.kind? = some k) : s.Form k := by
  cases s with
  | bare id => cases h
  | plain id sort => cases sort <;> cases h <;> exact ⟨id, rfl⟩
  | wrap id wrapper inner => cases wrapper <;> cases h <;> exact ⟨id, inner, rfl⟩
  | literal id values => cases h; exact ⟨id, values, rfl⟩
  | enum id values => cases h; exact ⟨id, values, rfl⟩
  | array id element => cases h; exact ⟨id, element, rfl⟩
  | tuple id items => cases h; exact ⟨id, items, rfl⟩
  | object id fields => cases h; exact ⟨id, fields, rfl⟩
  | record id key val => cases h; exact ⟨id, key, val, rfl⟩
  | union id options => cases h; exact ⟨id, options, rfl⟩
  | intersection id left right => cases h; exact ⟨id, left, right, rfl⟩
  | custom id label predicate target => cases h; exact ⟨id, label, predicate, target, rfl⟩

/-! ## Parts -/

theorem part?_of_stored {v : Value} {p : Part} {s : Schema} (h : v.stored? p = some s.value) :
    v.part? p = some s.value := by
  rw [Value.part?, h]
  cases s <;> rfl

theorem wrapped?_value (id : Ident) (w : Wrapper) (inner : Schema) :
    (wrap id w inner).value.wrapped? w.kind = some inner.value := by
  rw [Value.wrapped?, isOf_value, if_pos (by simp [kind?])]
  exact part?_of_stored rfl

theorem arrayElement?_value (id : Ident) (element : Schema) :
    (array id element).value.arrayElement? = some element.value :=
  part?_of_stored (v := (array id element).value) rfl

theorem recordKey?_value (id : Ident) (key val : Schema) :
    (record id key val).value.recordKey? = some key.value :=
  part?_of_stored (v := (record id key val).value) rfl

theorem recordValue?_value (id : Ident) (key val : Schema) :
    (record id key val).value.recordValue? = some val.value :=
  part?_of_stored (v := (record id key val).value) rfl

theorem leftSide?_value (id : Ident) (left right : Schema) :
    (intersection id left right).value.leftSide? = some left.value :=
  part?_of_stored (v := (intersection id left right).value) rfl

theorem rightSide?_value (id : Ident) (left right : Schema) :
    (intersection id left right).value.rightSide? = some right.value :=
  part?_of_stored (v := (intersection id left right).value) rfl

/-- A part that holds a tuple reads as its items, also when there are none. -/
theorem sequence_of_stored {v : Value} {p : Part} {items : List Value}
    (h : v.stored? p = some (.tuple .transient items)) : v.sequence p = .ok items := by
  cases items <;> simp [Value.sequence, Value.part?, h, Value.truthy, Value.gather, Value.elements?,
    Value.datum]

theorem literalValues_value (id : Ident) (values : List Value) :
    (literal id values).value.literalValues = .ok values :=
  sequence_of_stored (v := (literal id values).value) (p := .values) rfl

theorem enumValues_value (id : Ident) (values : List Value) :
    (enum id values).value.enumValues = .ok values :=
  sequence_of_stored (v := (enum id values).value) (p := .values) rfl

/-- What a node lists is what its tree lists. -/
theorem listing_value (s : Schema) : s.value.listing = s.listed := by
  cases s with
  | literal id values =>
    rw [Value.listing, literalValues_value]
    exact List.append_nil values
  | enum id values =>
    rw [Value.listing, enumValues_value]
    rfl
  | plain id sort => cases sort <;> rfl
  | wrap id w inner => cases w <;> rfl
  | _ => rfl

theorem unionOptions_value (id : Ident) (options : List Schema) :
    (union id options).value.unionOptions = .ok (options.map value) := by
  rw [← itemValues_eq]
  exact sequence_of_stored (v := (union id options).value) (p := .options) rfl

theorem tupleItems?_value (id : Ident) (items : List Schema) :
    (tuple id items).value.tupleItems? = .ok (some (items.map value)) := by
  rw [← itemValues_eq]
  rfl

theorem fields_value (id : Ident) (fields : List (String × Schema)) :
    (object id fields).value.fields = fields.map entry := by
  rw [← fieldValues_eq]
  cases id <;> rfl

/-! ## Values taken by an option -/

/-- Does an option of a union take a listed value? -/
def takes (v : Value) : Schema → Bool
  | .literal _ values => values.any fun w => w.sameValue true v
  | .plain _ .string => v.isText
  | .plain _ .number => v.isFiniteNumber
  | .plain _ .boolean => v.isBool
  | _ => false

theorem optionTakes_value (o : Schema) (v : Value) : o.value.optionTakes v = .ok (o.takes v) := by
  cases o with
  | literal id values =>
    rw [Value.optionTakes, literalValues_value]
    rfl
  | plain id sort => cases sort <;> rfl
  | wrap id wrapper inner => cases wrapper <;> rfl
  | _ => rfl

/-- Every listed value is taken by one of the options. -/
theorem allTaken_value (options : List Schema) (values : List Value) :
    Value.allTaken (options.map value) values =
      .ok (values.all fun v => options.any fun o => o.takes v) := by
  have inner (v : Value) :
      ((options.map value).anyM fun o => o.optionTakes v) =
        (pure (options.any fun o => o.takes v) : Except Fault Bool) := by
    induction options with
    | nil => rfl
    | cons o rest ih =>
      rw [List.map_cons, List.anyM_cons, optionTakes_value, ih, List.any_cons]
      cases o.takes v <;> rfl
  rw [Value.allTaken, funext inner, List.allM_pure]
  rfl

/-! ## Fields that may be left out -/

/-- Does an option of a union let a field be left out? -/
def omits : Schema → Bool
  | .plain _ .undefined => true
  | .literal _ values => values.any Value.isUndefined
  | _ => false

/-- **`omittable`** — may a field of this type be left out? -/
def omittable : Schema → Bool
  | .wrap _ .optional _ => true
  | .union _ options => options.any omits
  | _ => false

/-- The type of a field once it is known to be there. -/
def present : Schema → Schema
  | .wrap _ .optional inner => inner
  | s => s

theorem Everywhere.present {P : Schema → Prop} {a : Schema} (h : Everywhere P a) :
    Everywhere P a.present := by
  cases a with
  | wrap id wrapper inner =>
    cases wrapper with
    | optional => exact h.child (List.mem_singleton_self _)
    | nullable => exact h
  | _ => exact h

theorem optionOmits_value (o : Schema) : o.value.optionOmits = .ok o.omits := by
  cases o with
  | literal id values =>
    rw [Value.optionOmits, literalValues_value]
    rfl
  | plain id sort => cases sort <;> rfl
  | wrap id wrapper inner => cases wrapper <;> rfl
  | _ => rfl

theorem omittable_value (s : Schema) : s.value.omittable = .ok s.omittable := by
  cases s with
  | union id options =>
    have some_omits : (options.map value).anyM Value.optionOmits =
        (pure (options.any omits) : Except Fault Bool) := by
      induction options with
      | nil => rfl
      | cons o rest ih =>
        rw [List.map_cons, List.anyM_cons, optionOmits_value, ih, List.any_cons]
        cases o.omits <;> rfl
    simp only [Value.omittable, unionOptions_value]
    exact some_omits
  | plain id sort => cases sort <;> rfl
  | wrap id wrapper inner => cases wrapper <;> rfl
  | _ => rfl

/-- Unwrapping changes an optional wrapper only, so it may be done whether or not the field may be
left out. -/
theorem whenPresent_value (s : Schema) : s.value.whenPresent s.omittable = s.present.value := by
  cases s with
  | wrap id wrapper inner =>
    cases wrapper with
    | optional =>
      have unwrapped : (wrap id .optional inner).value.wrapped? .optional = some inner.value :=
        wrapped?_value id .optional inner
      simp only [omittable, Value.whenPresent, Value.unwrap, unwrapped]
      rfl
    | nullable => rfl
  | union id options => cases h : (union id options).omittable <;> rfl
  | _ => rfl

/-! ## Fields by name -/

theorem find?_entries (fields : List (String × Schema)) (name : String) :
    Entries.find? (fields.map entry) (.text name) = (fields.lookup name).map value := by
  induction fields with
  | nil => rfl
  | cons f rest ih =>
    obtain ⟨known, s⟩ := f
    unfold Entries.find? at ih ⊢
    -- Names are texts, and texts agree exactly when they are equal.
    rw [List.map_cons, List.find?_cons, entry, Value.agrees_text, List.lookup_cons, Bool.beq_comm]
    cases name == known with
    | true => rfl
    | false => exact ih

/-- The fields of two objects together; where both have a name, the second wins. -/
def mergeFields (fields more : List (String × Schema)) : List (String × Schema) :=
  more.foldl (fun known f => putName known f.1 f.2) fields

theorem put_entries (fields : List (String × Schema)) (name : String) (s : Schema) :
    Entries.put (fields.map entry) (.text name) s.value = (putName fields name s).map entry := by
  induction fields with
  | nil => rfl
  | cons f rest ih =>
    obtain ⟨known, t⟩ := f
    rw [List.map_cons, Entries.put, entry, Value.agrees_text, putName]
    by_cases h : known = name
    · simp [h, entry]
    · simp [h, entry, ih]

theorem merge_entries (fields more : List (String × Schema)) :
    Entries.merge (fields.map entry) (more.map entry) = (mergeFields fields more).map entry := by
  induction more generalizing fields with
  | nil => rfl
  | cons f rest ih =>
    show Entries.merge (Entries.put (fields.map entry) (.text f.1) f.2.value) (rest.map entry) = _
    rw [put_entries, ih]
    rfl

theorem mem_putName {α : Type} {known : List (String × α)} {name : String} {a : α} {f : String × α}
    (h : f ∈ putName known name a) : f ∈ known ∨ f = (name, a) := by
  induction known with
  | nil => exact .inr (List.mem_singleton.mp h)
  | cons g rest ih =>
    rw [putName] at h
    split at h
    · rcases List.mem_cons.mp h with rfl | h
      · exact .inr rfl
      · exact .inl (List.mem_cons_of_mem _ h)
    · rcases List.mem_cons.mp h with rfl | h
      · exact .inl List.mem_cons_self
      · exact (ih h).imp_left (List.mem_cons_of_mem _)

theorem mem_mergeFields {fields more : List (String × Schema)} {f : String × Schema}
    (h : f ∈ mergeFields fields more) : f ∈ fields ∨ f ∈ more := by
  induction more generalizing fields with
  | nil => exact .inl h
  | cons g rest ih =>
    rcases ih h with h | h
    · rcases mem_putName h with h | rfl
      · exact .inl h
      · exact .inr List.mem_cons_self
    · exact .inr (List.mem_cons_of_mem _ h)

theorem keys_entries (fields : List (String × Schema)) :
    (fields.map entry).map Prod.fst = (fields.map Prod.fst).map Value.text := by
  rw [List.map_map, List.map_map]
  rfl

theorem nodup_names_mergeFields {fields : List (String × Schema)}
    (more : List (String × Schema)) (distinct : (fields.map Prod.fst).Nodup) :
    ((mergeFields fields more).map Prod.fst).Nodup := by
  have names : ((fields.map entry).map Prod.fst).Nodup := by
    rw [keys_entries]
    exact distinct.map fun s t same => Value.text.inj same
  have texts : ∀ e ∈ more.map entry, ∃ s, e.1 = .text s :=
    List.forall_mem_map.mpr fun f _ => ⟨f.1, rfl⟩
  have merged := Value.nodup_keys_merge names texts
  rw [merge_entries, keys_entries] at merged
  exact merged.of_map _

/-- The object with the fields of both sides, which exists only while it is looked at. -/
def merged (fields more : List (String × Schema)) : Schema :=
  .object .transient (mergeFields fields more)

theorem mergedObject_value (i j : Ident) (fields more : List (String × Schema)) :
    Value.mergedObject (object i fields).value (object j more).value =
      (merged fields more).value := by
  rw [Value.mergedObject, fields_value, fields_value, merge_entries, merged, value, fieldValues_eq]
  rfl

end Schema

end Conformance
