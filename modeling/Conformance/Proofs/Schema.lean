/-
# Conformance.Proofs.Schema — well-formed descriptors as trees of their own.

A dynamic value may be anything; a descriptor that was built is a tree of nodes with the parts of
their kinds.  `Schema` is the type of these trees, identities included, and `Schema.value` is the
node that such a tree stands for, so a statement about every built descriptor is one about `s.value`
for every `s`.  What the type does not say is said node by node: `Schema.IsSound` lists what a
builder checks (sets of values and unions are not empty, field names are distinct, values are of the
sorts that literals and enumerations take), and `Schema.WellFormed` asks it of every node.

Sharing is said with a `Heap`: an identity belongs to one node, so two trees that live in one heap
may share nodes in any way.
-/
import Conformance.Descriptor.Build
import Conformance.Scope
import Conformance.Rule.Decide
import Mathlib.Data.List.Forall2

namespace Conformance

/-! ## Kinds without parts, and wrappers -/

/-- The kinds of node that have no parts. -/
inductive Plain where
  | string | number | boolean | bigint | symbol
  | undefined | null
  | any | unknown | never
  deriving DecidableEq, Repr

/-- The kind of a node without parts. -/
def Plain.kind : Plain → Kind
  | .string => .string
  | .number => .number
  | .boolean => .boolean
  | .bigint => .bigint
  | .symbol => .symbol
  | .undefined => .undefined
  | .null => .null
  | .any => .any
  | .unknown => .unknown
  | .never => .never

/-- The two wrappers: "or absent" and "or null". -/
inductive Wrapper where
  | optional | nullable
  deriving DecidableEq, Repr

namespace Wrapper

/-- The kind of a wrapper. -/
def kind : Wrapper → Kind
  | .optional => .optional
  | .nullable => .nullable

/-- What a wrapper admits beside its inner values. -/
def absence : Wrapper → Plain
  | .optional => .undefined
  | .nullable => .null

end Wrapper

/-! ## Trees -/

/-- **`Schema`** — a descriptor: a node with its identity and the parts of its kind.  The base node
has no kind. -/
inductive Schema where
  | bare (id : Ident)
  | plain (id : Ident) (sort : Plain)
  | literal (id : Ident) (values : List Value)
  | enum (id : Ident) (values : List Value)
  | wrap (id : Ident) (wrapper : Wrapper) (inner : Schema)
  | array (id : Ident) (element : Schema)
  | tuple (id : Ident) (items : List Schema)
  | object (id : Ident) (fields : List (String × Schema))
  | record (id : Ident) (key value : Schema)
  | union (id : Ident) (options : List Schema)
  | intersection (id : Ident) (left right : Schema)
  | custom (id : Ident) (label : String) (predicate target : Value)

namespace Schema

/-- The identity of a node. -/
def id : Schema → Ident
  | .bare id | .plain id _ | .literal id _ | .enum id _ | .wrap id _ _ | .array id _ | .tuple id _
  | .object id _ | .record id _ _ | .union id _ | .intersection id _ _ | .custom id _ _ _ => id

/-- The kind of a node. -/
def kind? : Schema → Option Kind
  | .bare _ => none
  | .plain _ sort => some sort.kind
  | .literal _ _ => some .literal
  | .enum _ _ => some .enum
  | .wrap _ wrapper _ => some wrapper.kind
  | .array _ _ => some .array
  | .tuple _ _ => some .tuple
  | .object _ _ => some .object
  | .record _ _ _ => some .record
  | .union _ _ => some .union
  | .intersection _ _ _ => some .intersection
  | .custom _ _ _ _ => some .custom

/-- The nodes directly below a node. -/
def children : Schema → List Schema
  | .wrap _ _ inner => [inner]
  | .array _ element => [element]
  | .tuple _ items => items
  | .object _ fields => fields.map Prod.snd
  | .record _ key value => [key, value]
  | .union _ options => options
  | .intersection _ left right => [left, right]
  | _ => []

/-! ## The node that a tree stands for -/

/-- The shape of an object.  One that was built is read-only; one that exists only while it is
looked at holds an ordinary mapping. -/
def shapeOf : Ident → Entries → Value
  | .made _, entries => .frozen entries
  | .transient, entries => .dict .transient entries

mutual
/-- **`value`** — the node that a tree stands for. -/
def value : Schema → Value
  | .bare id => .node id .base []
  | .plain id sort => .node id (.of sort.kind) []
  | .literal id values => .node id (.of .literal) [(.values, .tuple .transient values)]
  | .enum id values => .node id (.of .enum) [(.values, .tuple .transient values)]
  | .wrap id wrapper inner => .node id (.of wrapper.kind) [(.inner, value inner)]
  | .array id element => .node id (.of .array) [(.element, value element)]
  | .tuple id items => .node id (.of .tuple) [(.items, .tuple .transient (itemValues items))]
  | .object id fields => .node id (.of .object) [(.shape, shapeOf id (fieldValues fields))]
  | .record id key val => .node id (.of .record) [(.keyType, value key), (.valueType, value val)]
  | .union id options => .node id (.of .union) [(.options, .tuple .transient (itemValues options))]
  | .intersection id left right =>
    .node id (.of .intersection) [(.left, value left), (.right, value right)]
  | .custom id label predicate target =>
    .node id (.of .custom) [(.label, .text label), (.predicate, predicate), (.target, target)]
termination_by structural s => s

/-- The nodes of several trees. -/
def itemValues : List Schema → List Value
  | [] => []
  | s :: rest => value s :: itemValues rest
termination_by structural ss => ss

/-- The entries of a shape. -/
def fieldValues : List (String × Schema) → Entries
  | [] => []
  | f :: rest => fieldValue f :: fieldValues rest
termination_by structural fs => fs

/-- The entry of a field. -/
def fieldValue : String × Schema → Value × Value
  | (name, s) => (.text name, value s)
termination_by structural f => f
end

theorem itemValues_eq (ss : List Schema) : itemValues ss = ss.map value := by
  induction ss with
  | nil => rfl
  | cons s rest ih => simp [itemValues, ih]

/-- A field as it stands in a shape. -/
def entry (f : String × Schema) : Value × Value := (.text f.1, f.2.value)

theorem fieldValues_eq (fs : List (String × Schema)) : fieldValues fs = fs.map entry := by
  induction fs with
  | nil => rfl
  | cons f rest ih =>
    obtain ⟨name, s⟩ := f
    simp [fieldValues, fieldValue, entry, ih]

/-! ## Heights -/

mutual
/-- **`height`** — the longest way down; a node with nothing below it has height zero. -/
def height : Schema → Nat
  | .wrap _ _ inner => height inner + 1
  | .array _ element => height element + 1
  | .tuple _ items => heightOver items
  | .object _ fields => heightOverFields fields
  | .record _ key val => max (height key + 1) (height val + 1)
  | .union _ options => heightOver options
  | .intersection _ left right => max (height left + 1) (height right + 1)
  | _ => 0
termination_by structural s => s

/-- The height of a node over the given ones. -/
def heightOver : List Schema → Nat
  | [] => 0
  | s :: rest => max (height s + 1) (heightOver rest)
termination_by structural ss => ss

/-- The height of a node over the given fields. -/
def heightOverFields : List (String × Schema) → Nat
  | [] => 0
  | f :: rest => max (heightOverField f) (heightOverFields rest)
termination_by structural fs => fs

/-- The height of a node over one field. -/
def heightOverField : String × Schema → Nat
  | (_, s) => height s + 1
termination_by structural f => f
end

theorem heightOver_le_iff {ss : List Schema} {n : Nat} :
    heightOver ss ≤ n ↔ ∀ s ∈ ss, s.height < n := by
  induction ss with
  | nil => simp [heightOver]
  | cons s rest ih =>
    rw [heightOver, Nat.max_le, Nat.succ_le_iff, ih]
    simp only [List.forall_mem_cons]

theorem heightOverFields_eq (fs : List (String × Schema)) :
    heightOverFields fs = heightOver (fs.map Prod.snd) := by
  induction fs with
  | nil => rfl
  | cons f rest ih =>
    obtain ⟨name, s⟩ := f
    simp [heightOverFields, heightOverField, heightOver, ih]

/-- A tree is at most as high as a bound that lies above all its children. -/
theorem height_le_iff {s : Schema} {n : Nat} : s.height ≤ n ↔ ∀ c ∈ s.children, c.height < n := by
  cases s with
  | tuple _ items => exact heightOver_le_iff
  | union _ options => exact heightOver_le_iff
  | object _ fields =>
    rw [height, heightOverFields_eq]
    exact heightOver_le_iff
  | record _ key val =>
    rw [height, Nat.max_le, Nat.succ_le_iff, Nat.succ_le_iff]
    simp [children]
  | intersection _ left right =>
    rw [height, Nat.max_le, Nat.succ_le_iff, Nat.succ_le_iff]
    simp [children]
  | wrap _ _ inner =>
    rw [height, Nat.succ_le_iff]
    simp [children]
  | array _ element =>
    rw [height, Nat.succ_le_iff]
    simp [children]
  | _ => simp [height, children]

theorem height_lt_of_mem {s c : Schema} (h : c ∈ s.children) : c.height < s.height :=
  height_le_iff.mp (Nat.le_refl _) c h

/-! ## Properties of every node -/

/-- **`Everywhere P s`** — every node of the tree has the property. -/
inductive Everywhere (P : Schema → Prop) : Schema → Prop where
  | intro {s : Schema} : P s → (∀ c ∈ s.children, Everywhere P c) → Everywhere P s

theorem everywhere_iff {P : Schema → Prop} {s : Schema} :
    Everywhere P s ↔ P s ∧ ∀ c ∈ s.children, Everywhere P c := by
  constructor
  · rintro ⟨here, below⟩
    exact ⟨here, below⟩
  · rintro ⟨here, below⟩
    exact .intro here below

section Nodes

variable {P : Schema → Prop} {id : Ident}

@[simp] theorem everywhere_bare : Everywhere P (bare id) ↔ P (bare id) := by
  simp [everywhere_iff (s := bare id), children]

@[simp] theorem everywhere_plain {sort : Plain} :
    Everywhere P (plain id sort) ↔ P (plain id sort) := by
  simp [everywhere_iff (s := plain id sort), children]

@[simp] theorem everywhere_literal {values : List Value} :
    Everywhere P (literal id values) ↔ P (literal id values) := by
  simp [everywhere_iff (s := literal id values), children]

@[simp] theorem everywhere_enum {values : List Value} :
    Everywhere P (enum id values) ↔ P (enum id values) := by
  simp [everywhere_iff (s := enum id values), children]

@[simp] theorem everywhere_wrap {w : Wrapper} {inner : Schema} :
    Everywhere P (wrap id w inner) ↔ P (wrap id w inner) ∧ Everywhere P inner := by
  rw [everywhere_iff]
  simp [children]

@[simp] theorem everywhere_array {element : Schema} :
    Everywhere P (array id element) ↔ P (array id element) ∧ Everywhere P element := by
  rw [everywhere_iff]
  simp [children]

@[simp] theorem everywhere_tuple {items : List Schema} :
    Everywhere P (tuple id items) ↔ P (tuple id items) ∧ ∀ s ∈ items, Everywhere P s :=
  everywhere_iff

@[simp] theorem everywhere_object {fields : List (String × Schema)} :
    Everywhere P (object id fields) ↔ P (object id fields) ∧ ∀ f ∈ fields, Everywhere P f.2 := by
  rw [everywhere_iff]
  exact and_congr_right fun _ => List.forall_mem_map

@[simp] theorem everywhere_record {key val : Schema} :
    Everywhere P (record id key val) ↔
      P (record id key val) ∧ Everywhere P key ∧ Everywhere P val := by
  rw [everywhere_iff]
  simp [children]

@[simp] theorem everywhere_union {options : List Schema} :
    Everywhere P (union id options) ↔ P (union id options) ∧ ∀ s ∈ options, Everywhere P s :=
  everywhere_iff

@[simp] theorem everywhere_intersection {left right : Schema} :
    Everywhere P (intersection id left right) ↔
      P (intersection id left right) ∧ Everywhere P left ∧ Everywhere P right := by
  rw [everywhere_iff]
  simp [children]

@[simp] theorem everywhere_custom {label : String} {predicate target : Value} :
    Everywhere P (custom id label predicate target) ↔ P (custom id label predicate target) := by
  simp [everywhere_iff (s := custom id label predicate target), children]

end Nodes

namespace Everywhere

variable {P Q : Schema → Prop} {s c : Schema}

theorem here (h : Everywhere P s) : P s := (everywhere_iff.mp h).1

theorem child (h : Everywhere P s) (hc : c ∈ s.children) : Everywhere P c :=
  (everywhere_iff.mp h).2 c hc

theorem mono (hPQ : ∀ s, P s → Q s) (h : Everywhere P s) : Everywhere Q s := by
  induction h with
  | intro here _ ih => exact .intro (hPQ _ here) ih

theorem withChildren (h : Everywhere P s) :
    Everywhere (fun s => P s ∧ ∀ c ∈ s.children, P c) s := by
  induction h with
  | intro here below ih => exact .intro ⟨here, fun c hc => (below c hc).here⟩ ih

theorem and (hP : Everywhere P s) (hQ : Everywhere Q s) : Everywhere (fun s => P s ∧ Q s) s := by
  induction hP with
  | intro here _ ih => exact .intro ⟨here, hQ.here⟩ fun c hc => ih c hc (hQ.child hc)

end Everywhere

end Schema

/-! ## Well-formed trees -/

namespace Value

/-- The class of an instance is one that was made, so that it is the same as itself, and no class is
made from that of the truth values. -/
def HasClass : Value → Prop
  | .object _ c => c.same c = true ∧ c.layout ≠ .bool
  | _ => True

/-- A value that a literal may list: text, a number, a truth value, null or undefined. -/
def MayList (v : Value) : Prop := v.isLiteral = true ∧ v.HasClass

/-- A value that an enumeration may list: text or a number, but not "not a number". -/
def MayEnumerate (v : Value) : Prop :=
  v.isEnumerable = true ∧ (∀ x, v.double? = some x → x.isNaN = false) ∧ v.HasClass

theorem isLiteral_of_isEnumerable {v : Value} (h : v.isEnumerable = true) : v.isLiteral = true := by
  simp only [isEnumerable, isText, text?, isNumber] at h
  unfold isLiteral
  split <;> simp_all

theorem MayEnumerate.mayList {v : Value} (h : v.MayEnumerate) : v.MayList :=
  ⟨isLiteral_of_isEnumerable h.1, h.2.2⟩

end Value

namespace Schema

/-- What a builder checks of the parts of a node. -/
def PartsSound : Schema → Prop
  | .literal _ values => values ≠ [] ∧ ∀ v ∈ values, v.MayList
  | .enum _ values => values ≠ [] ∧ ∀ v ∈ values, v.MayEnumerate
  | .object _ fields => (fields.map Prod.fst).Nodup
  | .union _ options => options ≠ []
  | .custom _ _ predicate target =>
    (predicate.same .null || predicate.isCallable) = true ∧
      (target.same .null || target.isClass) = true
  | _ => True

/-- A node that was built: it has an identity, and its parts are what a builder lets through. -/
def IsSound (s : Schema) : Prop := (∃ n, s.id = .made n) ∧ s.PartsSound

/-- **`WellFormed`** — every node of the tree was built. -/
def WellFormed (s : Schema) : Prop := Everywhere IsSound s

/-! ## One identity, one node -/

/-- The values that a node lists. -/
def listed : Schema → List Value
  | .literal _ values | .enum _ values => values
  | _ => []

theorem IsSound.mayList {s : Schema} (h : s.IsSound) {v : Value} (hv : v ∈ s.listed) :
    v.MayList := by
  cases s with
  | literal id values => exact h.2.2 v hv
  | enum id values => exact (h.2.2 v hv).mayList
  | _ => cases hv

end Schema

/-- **`Heap`** — the node and the class that bear an identity. -/
structure Heap where
  node : Nat → Schema
  cls : Nat → ClassRef

namespace Heap

/-- The heap with the given nodes. -/
def ofNodes (nodes : List Schema) : Heap where
  node n := (nodes.find? fun s => s.id = .made n).getD (.bare (.made n))
  cls _ := .base .object

/-- The class of an instance is the one that bears its identity. -/
def KeepsClass (heap : Heap) : Value → Prop
  | .object _ (.made (.made n) name parents) => heap.cls n = .made (.made n) name parents
  | _ => True

/-- A node is the one that bears its identity, and so are the classes of its values. -/
def Keeps (heap : Heap) (s : Schema) : Prop :=
  (∀ n, s.id = .made n → heap.node n = s) ∧ ∀ v ∈ s.listed, heap.KeepsClass v

/-- One node of the heap is one tree. -/
theorem Keeps.eq_of_same {heap : Heap} {s t : Schema} (hs : heap.Keeps s) (ht : heap.Keeps t)
    (h : s.id.same t.id = true) : s = t := by
  obtain ⟨n, hsn, htn⟩ := Ident.same_iff.mp h
  calc
    s = heap.node n := (hs.1 n hsn).symm
    _ = t := ht.1 n htn

end Heap

namespace Schema

/-- **`LivesIn`** — every node of the tree is a node of the heap.  Trees that live in one heap may
share nodes in any way. -/
def LivesIn (s : Schema) (heap : Heap) : Prop := Everywhere heap.Keeps s

end Schema

end Conformance
