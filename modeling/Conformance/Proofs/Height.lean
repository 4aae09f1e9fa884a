/-
# Conformance.Proofs.Height — how far down a value goes.

A comparison goes down through the structural parts of nodes, and any value may stand where a node
is wanted.  `Value.beneath` lists what lies one level down from a value: what its parts hold, the
items of its sequences and the types of its fields.  `Value.height` is the longest way down, so a
value with nothing below it has height zero (`height_le_iff`).

Whatever an accessor reads off a value lies beneath it (`mem_beneath_of_part?` and what follows it).
Nothing is asked of the value: parts may be missing, of the wrong sort, or attributes of an object
that is no node at all.

Values hold others in many ways, and a list says which; `Throughout below P a` says `P` of `a` and of
everything below it, at any depth.
-/
import Conformance.Rule.Decide
import Mathlib.Data.List.Lemmas

namespace Conformance

/-! ## Properties of everything that is below -/

/-- **`Throughout below P a`** — `a` has the property, and so has everything below it. -/
inductive Throughout {α : Type} (below : α → List α) (P : α → Prop) : α → Prop where
  | intro {a : α} : P a → (∀ b ∈ below a, Throughout below P b) → Throughout below P a

namespace Throughout

variable {α : Type} {below : α → List α} {P Q : α → Prop} {a b : α}

theorem here (h : Throughout below P a) : P a := by
  cases h with
  | intro here _ => exact here

theorem of_mem (h : Throughout below P a) (hb : b ∈ below a) : Throughout below P b := by
  cases h with
  | intro _ rest => exact rest b hb

/-- Nothing is asked below where there is nothing. -/
theorem of_flat (here : P a) (flat : below a = []) : Throughout below P a := by
  refine .intro here fun b hb => ?_
  rw [flat] at hb
  cases hb

theorem mono (h : Throughout below P a) (imp : ∀ a, P a → Q a) : Throughout below Q a := by
  induction h with
  | intro here _ ih => exact .intro (imp _ here) ih

end Throughout

/-- What is found under a name stands there. -/
theorem mem_of_lookup {α β : Type} [BEq α] [LawfulBEq α] {l : List (α × β)} {x : α} {y : β}
    (h : l.lookup x = some y) : (x, y) ∈ l := by
  obtain ⟨before, after, rfl, -⟩ := List.lookup_eq_some_iff.mp h
  exact List.mem_append_right before List.mem_cons_self

/-! ## Where parts lead -/

/-- **`Lead`** — how a part leads further down: to the value that it holds, to the items of that
value, or to the types of its fields.  The remaining parts lead nowhere. -/
inductive Lead where
  | value | items | fields | nowhere
  deriving DecidableEq, Repr

/-- The values that lie one level down, where a part with this lead holds the given value. -/
def Lead.reach (lead : Lead) (v : Value) : List Value :=
  match lead with
  | .value => [v]
  | .items => v.elements?.getD []
  | .fields => (v.entries?.getD []).map Prod.snd
  | .nowhere => []

namespace Part

/-- How a part leads further down. -/
def lead : Part → Lead
  | .inner | .element | .keyType | .valueType | .left | .right => .value
  | .items | .options => .items
  | .shape => .fields
  | .values | .label | .predicate | .target => .nowhere

/-- How an attribute leads further down: as the part of that name does, if there is one. -/
def leadOf (name : String) : Lead :=
  match all.find? fun p => p.name == name with
  | some p => p.lead
  | none => .nowhere

theorem leadOf_name (p : Part) : leadOf p.name = p.lead := by
  cases p <;> rfl

end Part

namespace Value

/-- **`beneath`** — the values one level down. -/
def beneath : Value → List Value
  | .node _ _ parts => parts.flatMap fun p => p.1.lead.reach p.2
  | .lookalike _ attributes => attributes.flatMap fun f => (Part.leadOf f.1).reach f.2
  | _ => []

/-! ## Heights -/

mutual
/-- **`height`** — the longest way down through structural parts. -/
def height : Value → Nat
  | .node _ _ parts => heightOfParts parts
  | .lookalike _ attributes => heightOfAttributes attributes
  | _ => 0
termination_by structural v => v

/-- The height of a node with the given parts. -/
def heightOfParts : List (Part × Value) → Nat
  | [] => 0
  | p :: rest => max (heightOfPart p) (heightOfParts rest)
termination_by structural ps => ps

/-- The height of a node with one part. -/
def heightOfPart : Part × Value → Nat
  | (p, v) =>
    match p.lead with
    | .value => height v + 1
    | .items => heightOverItems v
    | .fields => heightOverFields v
    | .nowhere => 0
termination_by structural p => p

/-- The height of an object with the given attributes. -/
def heightOfAttributes : List (String × Value) → Nat
  | [] => 0
  | f :: rest => max (heightOfAttribute f) (heightOfAttributes rest)
termination_by structural fs => fs

/-- The height of an object with one attribute. -/
def heightOfAttribute : String × Value → Nat
  | (name, v) =>
    match Part.leadOf name with
    | .value => height v + 1
    | .items => heightOverItems v
    | .fields => heightOverFields v
    | .nowhere => 0
termination_by structural f => f

/-- The height over the items of a value.  Beside collections, only values whose items are flat can
be gone through. -/
def heightOverItems : Value → Nat
  | .list _ items | .tuple _ items => heightOver items
  | .dict _ entries | .frozen entries => heightOverEntries true entries
  | v => if (v.elements?.getD []).isEmpty then 0 else 1
termination_by structural v => v

/-- The height over the types of the fields of a value. -/
def heightOverFields : Value → Nat
  | .dict _ entries | .frozen entries => heightOverEntries false entries
  | _ => 0
termination_by structural v => v

/-- The height over the given values. -/
def heightOver : List Value → Nat
  | [] => 0
  | v :: rest => max (height v + 1) (heightOver rest)
termination_by structural vs => vs

/-- The height over the keys of a mapping, or over its values. -/
def heightOverEntries (keys : Bool) : List (Value × Value) → Nat
  | [] => 0
  | e :: rest => max (heightOverEntry keys e) (heightOverEntries keys rest)
termination_by structural es => es

/-- The height over the key of an entry, or over its value. -/
def heightOverEntry (keys : Bool) : Value × Value → Nat
  | (k, v) => if keys then height k + 1 else height v + 1
termination_by structural e => e
end

section Bounds

variable {n : Nat}

theorem heightOver_le_iff {vs : List Value} : heightOver vs ≤ n ↔ ∀ v ∈ vs, v.height < n := by
  induction vs with
  | nil => simp [heightOver]
  | cons v rest ih =>
    rw [heightOver, Nat.max_le, Nat.succ_le_iff, ih]
    simp only [List.forall_mem_cons]

theorem heightOverEntries_le_iff {keys : Bool} {es : List (Value × Value)} :
    heightOverEntries keys es ≤ n ↔ ∀ e ∈ es, (if keys then e.1 else e.2).height < n := by
  induction es with
  | nil => simp [heightOverEntries]
  | cons e rest ih =>
    obtain ⟨k, v⟩ := e
    rw [heightOverEntries, Nat.max_le, ih, heightOverEntry, List.forall_mem_cons]
    cases keys <;> exact Iff.rfl

theorem heightOverFields_le_iff {v : Value} :
    heightOverFields v ≤ n ↔ ∀ w ∈ Lead.fields.reach v, w.height < n := by
  have nothing : (0 : Nat) ≤ n ↔ ∀ w ∈ ([] : List Value), w.height < n := by simp
  cases v with
  | dict _ entries =>
    show _ ↔ ∀ w ∈ entries.map Prod.snd, w.height < n
    rw [heightOverFields, heightOverEntries_le_iff, List.forall_mem_map]
    rfl
  | frozen entries =>
    show _ ↔ ∀ w ∈ entries.map Prod.snd, w.height < n
    rw [heightOverFields, heightOverEntries_le_iff, List.forall_mem_map]
    rfl
  | _ => exact nothing

/-- Items that are made while a value is gone through have nothing below them. -/
theorem one_le_iff_of_flat {items : List Value} (flat : ∀ w ∈ items, w.height = 0) :
    (if items.isEmpty then 0 else 1) ≤ n ↔ ∀ w ∈ items, w.height < n := by
  cases items with
  | nil => simp
  | cons w rest =>
    show 1 ≤ n ↔ _
    constructor
    · intro positive u hu
      rw [flat u hu]
      omega
    · intro h
      have first := h w List.mem_cons_self
      omega

theorem heightOverItems_le_iff {v : Value} :
    heightOverItems v ≤ n ↔ ∀ w ∈ Lead.items.reach v, w.height < n := by
  cases v with
  | list _ items => exact heightOver_le_iff
  | tuple _ items => exact heightOver_le_iff
  | dict _ entries =>
    show _ ↔ ∀ w ∈ entries.map Prod.fst, w.height < n
    rw [heightOverItems, heightOverEntries_le_iff, List.forall_mem_map]
    rfl
  | frozen entries =>
    show _ ↔ ∀ w ∈ entries.map Prod.fst, w.height < n
    rw [heightOverItems, heightOverEntries_le_iff, List.forall_mem_map]
    rfl
  | text s =>
    refine one_le_iff_of_flat (List.forall_mem_map.mpr ?_)
    intro c _
    rfl
  | enumeration id name members =>
    refine one_le_iff_of_flat (List.forall_mem_map.mpr ?_)
    intro m _
    rfl
  | node id model parts =>
    refine one_le_iff_of_flat (List.forall_mem_map.mpr ?_)
    intro p _
    rfl
  | object id c =>
    -- An instance that can be gone through is an empty text.
    refine one_le_iff_of_flat ?_
    intro w hw
    simp only [elements?, datum] at hw
    cases layout : c.layout <;> rw [layout] at hw <;> cases hw
  | _ =>
    have none : ∀ w ∈ ([] : List Value), w.height = 0 := by simp
    exact one_le_iff_of_flat none

/-- The height of a node over what one of its parts holds. -/
def heightThrough (lead : Lead) (v : Value) : Nat :=
  match lead with
  | .value => height v + 1
  | .items => heightOverItems v
  | .fields => heightOverFields v
  | .nowhere => 0

theorem heightThrough_le_iff {lead : Lead} {v : Value} :
    heightThrough lead v ≤ n ↔ ∀ w ∈ lead.reach v, w.height < n := by
  cases lead with
  | value =>
    rw [heightThrough, Lead.reach, List.forall_mem_singleton]
    exact Nat.succ_le_iff
  | items => exact heightOverItems_le_iff
  | fields => exact heightOverFields_le_iff
  | nowhere => simp [heightThrough, Lead.reach]

theorem heightOfParts_le_iff {parts : List (Part × Value)} :
    heightOfParts parts ≤ n ↔ ∀ p ∈ parts, ∀ w ∈ p.1.lead.reach p.2, w.height < n := by
  induction parts with
  | nil => simp [heightOfParts]
  | cons p rest ih =>
    have here : heightOfPart p = heightThrough p.1.lead p.2 := by
      rw [heightOfPart.eq_def]
      rfl
    rw [heightOfParts, Nat.max_le, ih, here, heightThrough_le_iff, List.forall_mem_cons]

theorem heightOfAttributes_le_iff {attributes : List (String × Value)} :
    heightOfAttributes attributes ≤ n ↔
      ∀ f ∈ attributes, ∀ w ∈ (Part.leadOf f.1).reach f.2, w.height < n := by
  induction attributes with
  | nil => simp [heightOfAttributes]
  | cons f rest ih =>
    have here : heightOfAttribute f = heightThrough (Part.leadOf f.1) f.2 := by
      rw [heightOfAttribute.eq_def]
      rfl
    rw [heightOfAttributes, Nat.max_le, ih, here, heightThrough_le_iff, List.forall_mem_cons]

/-- A value is at most as high as a bound that lies above everything below it. -/
theorem height_le_iff {v : Value} : v.height ≤ n ↔ ∀ w ∈ v.beneath, w.height < n := by
  cases v with
  | node id model parts =>
    rw [height, heightOfParts_le_iff, beneath, List.forall_mem_flatMap]
  | lookalike id attributes =>
    rw [height, heightOfAttributes_le_iff, beneath, List.forall_mem_flatMap]
  | _ => simp [height, beneath]

end Bounds

theorem height_lt_of_mem {v w : Value} (h : w ∈ v.beneath) : w.height < v.height :=
  height_le_iff.mp (Nat.le_refl _) w h

/-! ## What accessors read -/

section Accessors

variable {v w : Value} {p : Part}

theorem stored?_of_part? (h : v.part? p = some w) : v.stored? p = some w := by
  unfold part? at h
  split at h
  · cases h
  · exact h

/-- What a part leads to lies beneath the value that has the part. -/
theorem mem_beneath_of_part? (h : v.part? p = some w) {u : Value} (hu : u ∈ p.lead.reach w) :
    u ∈ v.beneath := by
  have stored := stored?_of_part? h
  cases v with
  | node id model parts => exact List.mem_flatMap.mpr ⟨(p, w), mem_of_lookup stored, hu⟩
  | lookalike id attributes =>
    rw [← Part.leadOf_name] at hu
    exact List.mem_flatMap.mpr ⟨(p.name, w), mem_of_lookup stored, hu⟩
  | _ => cases stored

theorem mem_beneath_of_held {k : Kind} (one : p.lead = .value)
    (h : (if v.isOf k then v.part? p else none) = some w) : w ∈ v.beneath := by
  split at h
  · apply mem_beneath_of_part? h
    rw [one]
    exact List.mem_singleton_self w
  · cases h

theorem mem_beneath_of_wrapped? {k : Kind} (h : v.wrapped? k = some w) : w ∈ v.beneath :=
  mem_beneath_of_held rfl h

/-- Unwrapping a value leaves it as it is or goes one level down. -/
theorem whenPresent_eq_or_mem (omits : Bool) (v : Value) :
    v.whenPresent omits = v ∨ v.whenPresent omits ∈ v.beneath := by
  unfold whenPresent
  split
  · unfold unwrap
    cases h : v.wrapped? .optional with
    | none => exact .inl rfl
    | some w => exact .inr (mem_beneath_of_wrapped? h)
  · exact .inl rfl

theorem reach_of_gather {items : List Value} (h : w.gather = .ok items) :
    Lead.items.reach w = items := by
  unfold gather at h
  split at h
  · rename_i found elements
    cases h
    rw [Lead.reach, elements]
    rfl
  · cases h

/-- The items of a sequence lie beneath the value whose part holds it. -/
theorem mem_beneath_of_sequence {items : List Value} (lead : p.lead = .items)
    (h : v.sequence p = .ok items) {u : Value} (hu : u ∈ items) : u ∈ v.beneath := by
  unfold sequence at h
  split at h
  · cases h
    cases hu
  · rename_i part found
    split at h
    · apply mem_beneath_of_part? found
      rwa [lead, reach_of_gather h]
    · cases h
      cases hu

theorem mem_beneath_of_unionOptions {options : List Value} (h : v.unionOptions = .ok options)
    {o : Value} (ho : o ∈ options) : o ∈ v.beneath := by
  unfold unionOptions at h
  split at h
  · exact mem_beneath_of_sequence rfl h ho
  · cases h
    cases ho

theorem mem_beneath_of_tupleItems? {items : List Value} (h : v.tupleItems? = .ok (some items))
    {u : Value} (hu : u ∈ items) : u ∈ v.beneath := by
  unfold tupleItems? at h
  split at h
  · split at h
    · cases h
    · rename_i part found
      cases gathered : part.gather with
      | error e => rw [gathered] at h; cases h
      | ok found' =>
        rw [gathered] at h
        cases h
        apply mem_beneath_of_part? found
        show u ∈ Lead.items.reach part
        rwa [reach_of_gather gathered]
  · cases h

/-- The types of the fields of an object lie beneath the object. -/
theorem mem_beneath_of_mem_fields {e : Value × Value} (h : e ∈ v.fields) : e.2 ∈ v.beneath := by
  unfold fields shape? at h
  split at h
  · split at h
    · rename_i shape found
      cases entries : shape.entries? with
      | none => simp [entries] at h
      | some es =>
        simp only [entries, Option.isSome_some, if_true, Option.bind_some, Option.getD_some] at h
        apply mem_beneath_of_part? found
        show e.2 ∈ Lead.fields.reach shape
        rw [Lead.reach, entries]
        exact List.mem_map_of_mem h
    · cases h
  · cases h

theorem mem_of_find? {es : Entries} {key : Value} (h : es.find? key = some w) :
    ∃ k, (k, w) ∈ es := by
  unfold Entries.find? at h
  obtain ⟨⟨k, x⟩, found, rfl⟩ := Option.map_eq_some_iff.mp h
  exact ⟨k, List.mem_of_find?_eq_some found⟩

end Accessors

/-! ## Merged objects -/

section Entries

variable {es more : Entries} {key w : Value} {P Q : Value → Prop}

/-- A known key keeps its place under the key that was there. -/
theorem forall_put (hes : ∀ e ∈ es, P e.1 ∧ Q e.2) (hk : P key) (hw : Q w) :
    ∀ e ∈ es.put key w, P e.1 ∧ Q e.2 := by
  induction es with
  | nil => exact List.forall_mem_singleton.mpr ⟨hk, hw⟩
  | cons f rest ih =>
    obtain ⟨hf, hrest⟩ := List.forall_mem_cons.mp hes
    rw [Entries.put]
    split
    · exact List.forall_mem_cons.mpr ⟨⟨hf.1, hw⟩, hrest⟩
    · exact List.forall_mem_cons.mpr ⟨hf, ih hrest⟩

/-- What stands in a merged mapping stood in one of the two. -/
theorem forall_merge (hes : ∀ e ∈ es, P e.1 ∧ Q e.2) (hmore : ∀ e ∈ more, P e.1 ∧ Q e.2) :
    ∀ e ∈ es.merge more, P e.1 ∧ Q e.2 := by
  induction more generalizing es with
  | nil => exact hes
  | cons f rest ih =>
    obtain ⟨hf, hrest⟩ := List.forall_mem_cons.mp hmore
    exact ih (forall_put hes hf.1 hf.2) hrest

theorem agrees_text (s t : String) : (Value.text s).agrees (.text t) = (s == t) := by
  show ((s == t) || (s == t)) = (s == t)
  exact Bool.or_self _

theorem mem_keys_put {k : Value} (h : k ∈ (es.put key w).map Prod.fst) :
    k ∈ es.map Prod.fst ∨ k = key := by
  induction es with
  | nil => exact .inr (List.mem_singleton.mp h)
  | cons e rest ih =>
    rw [Entries.put] at h
    split at h
    · exact .inl h
    · rcases List.mem_cons.mp h with rfl | h
      · exact .inl List.mem_cons_self
      · exact (ih h).imp_left (List.mem_cons_of_mem _)

/-- A text that is a key already keeps its place, and one that is none differs from all keys. -/
theorem nodup_keys_put (s : String) (distinct : (es.map Prod.fst).Nodup) :
    ((es.put (.text s) w).map Prod.fst).Nodup := by
  induction es with
  | nil => exact List.nodup_cons.mpr ⟨List.not_mem_nil, List.nodup_nil⟩
  | cons e rest ih =>
    obtain ⟨fresh, others⟩ := List.nodup_cons.mp distinct
    rw [Entries.put]
    split
    · exact distinct
    case isFalse differs =>
      refine List.nodup_cons.mpr ⟨fun again => ?_, ih others⟩
      rcases mem_keys_put again with known | new
      · exact fresh known
      · rw [new, agrees_text] at differs
        exact differs (beq_self_eq_true s)

theorem nodup_keys_merge (distinct : (es.map Prod.fst).Nodup)
    (texts : ∀ e ∈ more, ∃ s, e.1 = .text s) : ((es.merge more).map Prod.fst).Nodup := by
  induction more generalizing es with
  | nil => exact distinct
  | cons e rest ih =>
    obtain ⟨⟨s, text⟩, texts⟩ := List.forall_mem_cons.mp texts
    have put : ((es.put e.1 e.2).map Prod.fst).Nodup := by
      rw [text]
      exact nodup_keys_put s distinct
    exact ih put texts

end Entries

/-- What lies beneath a merged object lies beneath one of the two. -/
theorem mem_beneath_of_mergedObject {left right w : Value}
    (h : w ∈ (mergedObject left right).beneath) : w ∈ left.beneath ∨ w ∈ right.beneath := by
  have entries : w ∈ (left.fields.merge right.fields).map Prod.snd := by
    simpa [mergedObject, beneath, Lead.reach, Part.lead, entries?] using h
  obtain ⟨e, he, rfl⟩ := List.mem_map.mp entries
  have found := forall_merge (P := fun _ => True)
    (Q := fun w => w ∈ left.beneath ∨ w ∈ right.beneath)
    (fun f hf => ⟨trivial, .inl (mem_beneath_of_mem_fields hf)⟩)
    (fun f hf => ⟨trivial, .inr (mem_beneath_of_mem_fields hf)⟩)
  exact (found e he).2

/-- A merged object is no higher than the higher of the two. -/
theorem height_mergedObject_lt {left right : Value} {n : Nat} (hl : left.height < n)
    (hr : right.height < n) : (mergedObject left right).height < n := by
  obtain ⟨m, rfl⟩ : ∃ m, n = m + 1 := ⟨n - 1, by omega⟩
  rw [Nat.lt_succ_iff, height_le_iff]
  intro w hw
  rcases mem_beneath_of_mergedObject hw with hw | hw
  · have lower := height_lt_of_mem hw
    omega
  · have lower := height_lt_of_mem hw
    omega

end Value

end Conformance
