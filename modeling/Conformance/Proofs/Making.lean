/-
# Conformance.Proofs.Making — what holds of values holds of what is made from them.

A property of values is upheld (`Value.Upheld`) if plain data has it, if it goes over to what a
value holds and is not lost when cards are added to the ledger, and if every new object has it that
holds only values which have it.  Calls, classes, constructors, builders, methods and wrappings are
gone through here once for all such properties: they give values with the property from values with
the property.

Of a node they give more is known, whatever it was made from.  `acceptPart` lets values through in
one form for each part only, and brings others into it: any sequence becomes a tuple, a mapping a
read-only one with texts for keys, and an empty mapping a node without a kind (`Value.IsFormed`).
-/
import Conformance.Proofs.Ledger

namespace Conformance

open Build (Records)

/-! ## Nodes and their parts -/

/-- A node, whatever it stores. -/
def Value.IsNode (v : Value) : Prop := ∃ id model parts, v = .node id model parts

/-- **`Part.Form model part v`** — the value is in the form in which a node keeps the part. -/
def Part.Form (model : Model) : Part → Value → Prop
  | .values, v => ∃ values, v = .tuple .transient values ∧ values ≠ [] ∧
      ∀ x ∈ values, if model = .of .enum then
        x.isEnumerable = true ∧ ∀ d, x.double? = some d → d.isNaN = false else x.isLiteral = true
  | .items, v => ∃ nodes, v = .tuple .transient nodes ∧ ∀ w ∈ nodes, w.IsNode
  | .options, v => ∃ nodes, v = .tuple .transient nodes ∧ nodes ≠ [] ∧ ∀ w ∈ nodes, w.IsNode
  | .shape, v => ∃ fields : Entries, v = .frozen fields ∧ (fields.map Prod.fst).Nodup ∧
      ∀ e ∈ fields, (∃ s, e.1 = .text s) ∧ e.2.IsNode
  | .label, v => ∃ s, v = .text s
  | .predicate, v => (v.same .null || v.isCallable) = true
  | .target, v => (v.same .null || v.isClass) = true
  | _, v => v.IsNode

/-- **`IsFormed`** — if it is a node, it was made under a number and keeps the parts of its model,
each in its form. -/
def Value.IsFormed (v : Value) : Prop :=
  ∀ id model parts, v = .node id model parts → (∃ n, id = .made n) ∧
    List.Forall₂ (fun part p => p.1 = part ∧ part.Form model p.2) model.parts parts

namespace Value

variable {v : Value} {n : Nat} {model : Model} {parts : List (Part × Value)}

theorem isFormed_node
    (h : List.Forall₂ (fun part p => p.1 = part ∧ part.Form model p.2) model.parts parts) :
    (Value.node (.made n) model parts).IsFormed := by
  rintro _ _ _ ⟨⟩
  exact ⟨⟨n, rfl⟩, h⟩

theorem isFormed_of_ne (h : ∀ id model parts, v ≠ .node id model parts) : v.IsFormed :=
  fun id model parts eq => absurd eq (h id model parts)

/-- Neither a node, a class, an instance of one nor a value that can change. -/
def isSimple : Value → Bool
  | .list _ _ | .dict _ _ | .lookalike _ _ | .cls _ | .object _ _ | .node _ _ _ => false
  | _ => true

theorem isFormed_of_isSimple (h : v.isSimple = true) : v.IsFormed := by
  refine isFormed_of_ne ?_
  rintro _ _ _ rfl
  cases h

/-! ## Properties that are upheld -/

/-- **`Upheld H`** — the property goes over to what a value holds, stays when cards are added, and
is had by every new object that holds only values which have it. -/
structure Upheld (H : Ledger → Value → Prop) : Prop where
  mono {l l' : Ledger} {v : Value} : H l v → l.Grows l' → H l' v
  contents {l : Ledger} {v : Value} : H l v → ∀ w ∈ v.contents, H l w
  simple {l : Ledger} {v : Value} : v.isSimple = true → (∀ w ∈ v.contents, H l w) → H l v
  /-- A list, a mapping or an object with attributes, with its card in the ledger. -/
  changeable {l : Ledger} {v : Value} : v.isChangeable = true → v.Recorded l →
    (∀ w ∈ v.contents, H l w) → H l v
  baseClass {l : Ledger} (b : BaseClass) : H l (.cls (.base b))
  /-- A new class with the classes among the values for parents. -/
  derived {l : Ledger} {values : List Value} {parents : List ClassRef} (n : Nat) (name : String) :
    (∀ v ∈ values, H l v) → parentsOf values = .ok parents →
      H l (.cls (.made (.made n) name parents))
  object {l : Ledger} {c : ClassRef} (id : Ident) : H l (.cls c) → c ≠ .base .bool →
    H l (.object id c)
  /-- A new node with its card in the ledger, each part in its form. -/
  node {l : Ledger} {n : Nat} {model : Model} {parts : List (Part × Value)} :
    (Value.node (.made n) model parts).IsFormed → (Value.node (.made n) model parts).Recorded l →
      (∀ p ∈ parts, H l p.2) → H l (.node (.made n) model parts)

/-- What is filed stays so. -/
theorem upheld_filed : Upheld Filed where
  mono := Filed.mono
  contents h _ hw := h.of_mem hw
  simple {_ v} simple h := by
    refine filed_of_key_eq_none ?_ h
    cases v with
    | list id items => cases simple
    | dict id entries => cases simple
    | lookalike id attributes => cases simple
    | node id model parts => cases simple
    | _ => rfl
  changeable _ recorded h := .intro recorded h
  baseClass _ := filed_of_key_eq_none rfl (List.forall_mem_nil _)
  derived _ _ _ _ := filed_of_key_eq_none rfl (List.forall_mem_nil _)
  object _ _ _ := filed_of_key_eq_none rfl (List.forall_mem_nil _)
  node _ recorded h := .intro recorded (List.forall_mem_map.mpr h)

/-- What a maker of values gives: it has the property and, if it is a node, is formed. -/
def Made (H : Ledger → Value → Prop) (l : Ledger) (v : Value) : Prop := H l v ∧ v.IsFormed

theorem recorded_of_card {l : Ledger} (key : v.key? = some (.made n)) (card : l n = some v.card) :
    v.Recorded l := by
  intro k made
  rw [key] at made
  cases made
  exact card

namespace Upheld

variable {H : Ledger → Value → Prop} (up : Upheld H) {l : Ledger}
include up

theorem flat (simple : v.isSimple = true) (nothing : v.contents = []) : H l v := by
  refine up.simple simple ?_
  rw [nothing]
  exact List.forall_mem_nil _

theorem made_flat (simple : v.isSimple = true) (nothing : v.contents = []) : Made H l v :=
  ⟨up.flat simple nothing, isFormed_of_isSimple simple⟩

theorem tuple {id : Ident} {items : List Value} (h : ∀ v ∈ items, H l v) :
    H l (.tuple id items) := up.simple rfl h

theorem lenient (l : Ledger) : IsLenient (H l) where
  contents := up.contents
  null := up.flat rfl rfl
  text _ := up.flat rfl rfl
  tuple _ _ h := up.tuple h
  member _ _ _ _ h := up.simple rfl (List.forall_mem_singleton.mpr h)

/-- A mapping that exists only while it is looked at. -/
theorem transient {entries : Entries} (h : ∀ e ∈ entries, H l e.1 ∧ H l e.2) :
    H l (.dict .transient entries) :=
  up.changeable rfl (fun _ made => by cases made) (forall_mem_keys_append_values.mpr h)

/-- A new object about which nothing is on record. -/
theorem newSimple {f : Ident → Value} (simple : ∀ id, (f id).isSimple = true)
    (held : ∀ id, ∀ w ∈ (f id).contents, H l w) :
    Records l (Build.fresh >>= fun id => pure (f id)) (Made H) := by
  refine .bind (.fresh fun _ => .null) fun l' id grows _ => .pure ⟨?_, ?_⟩
  · exact up.simple (simple id) fun w hw => up.mono (held id w hw) grows
  · exact isFormed_of_isSimple (simple id)

/-- A new object that can change is filed under its identity. -/
theorem newChangeable {f : Ident → Value} (change : ∀ id, (f id).isChangeable = true)
    (key : ∀ id, (f id).key? = some id) (held : ∀ id, ∀ w ∈ (f id).contents, H l w) :
    Records l (Build.fresh >>= fun id => pure (f id)) H := by
  refine .bind (.fresh fun n => (f (.made n)).card) ?_
  rintro l' _ grows ⟨n, rfl, card⟩
  refine .pure (up.changeable (change _) (recorded_of_card (key _) card) fun w hw => ?_)
  exact up.mono (held _ w hw) grows

theorem newObject {c : ClassRef} (hc : H l (.cls c)) (other : c ≠ .base .bool) :
    Records l (Build.fresh >>= fun id => pure (.object id c)) (Made H) :=
  .bind (.fresh fun _ => .null) fun _ id grows _ =>
    .pure ⟨up.object id (up.mono hc grows) other, isFormed_of_ne (by simp)⟩

/-- A new node whose parts are in their forms. -/
theorem newNode
    (formed : List.Forall₂ (fun part p => p.1 = part ∧ part.Form model p.2) model.parts parts)
    (held : ∀ p ∈ parts, H l p.2) :
    Records l (Build.fresh >>= fun id => pure (.node id model parts)) (Made H) := by
  refine .bind (.fresh fun n => (Value.node (.made n) model parts).card) ?_
  rintro l' _ grows ⟨n, rfl, card⟩
  have node : (Value.node (.made n) model parts).IsFormed := isFormed_node formed
  refine .pure ⟨?_, node⟩
  exact up.node node (recorded_of_card rfl card) fun p hp => up.mono (held p hp) grows

end Upheld

end Value

open Value (Upheld Made)

section Walk

variable {H : Ledger → Value → Prop} (up : Upheld H) {l : Ledger}
include up

/-! ## Calls -/

theorem Value.newInstance_made {c : ClassRef} (hc : H l (.cls c)) :
    Records l (newInstance c) (Made H) := by
  unfold newInstance
  split
  · exact .pure (up.made_flat rfl rfl)
  · exact .pure (up.made_flat rfl rfl)
  · exact .pure (up.made_flat rfl rfl)
  · exact up.newSimple (fun _ => rfl) fun _ => List.forall_mem_nil _
  case h_5 other _ _ => exact up.newObject hc other

theorem Value.dataFrom_made (c : ClassRef) (v : Value) : Records l (dataFrom c v) (Made H) := by
  unfold dataFrom
  split
  · exact .read .any fun n _ => .pure (up.made_flat rfl rfl)
  · exact .pure (up.made_flat rfl rfl)
  · exact .pure (up.made_flat rfl rfl)
  · refine .read .any fun x _ => ?_
    exact up.newSimple (fun _ => rfl) fun _ => List.forall_mem_nil _
  · exact .read .any fun s _ => .pure (up.made_flat rfl rfl)
  · exact .throw _

theorem Value.instantiate_made {c : ClassRef} (hc : H l (.cls c)) (values : List Value) :
    Records l (instantiate c values) (Made H) := by
  unfold instantiate
  split
  · exact newInstance_made up hc
  · exact dataFrom_made up c _
  · split <;> exact .throw _

omit up in
/-- A node is no named constant. -/
theorem Value.findConstant_isFormed {id : Ident} {name : String} {v : Value}
    {members : List (String × Value)} : Gives (findConstant id name members v) IsFormed := by
  unfold findConstant
  split
  case h_1 found constant =>
    refine .ok (isFormed_of_ne ?_)
    rintro i model parts rfl
    unfold constant? at constant
    split at constant
    case isTrue same =>
      cases constant
      cases same
    case isFalse =>
      obtain ⟨m, -, eq⟩ := Option.map_eq_some_iff.mp constant
      cases eq
  case h_2 => split <;> exact .error

/-- **`call_made`** — what is had by calling a value has the property, and is no node. -/
theorem Value.call_made {callee : Value} {values : List Value} (hc : H l callee)
    (hv : ∀ v ∈ values, H l v) : Records l (callee.call values) (Made H) := by
  unfold call
  split
  · exact .read .any fun _ _ => .pure (up.made_flat rfl rfl)
  · exact .pure (up.made_flat rfl rfl)
  · exact instantiate_made up hc values
  case h_4 id name members =>
    have constant : Gives (findConstant id name members (values.headD .null)) (H l) :=
      (up.lenient l).findConstant
        (fun m hm => up.contents hc _ (List.mem_map_of_mem hm)) ((up.lenient l).headD hv)
    refine .read .any fun _ _ => .ofExcept fun found eq => ?_
    exact ⟨constant found eq, findConstant_isFormed found eq⟩
  · exact .throw _

theorem Value.newClass_made {values : List Value} (name : String) (h : ∀ v ∈ values, H l v) :
    Records l (newClass name values) (Made H) := by
  refine .read (fun parents eq => eq) fun parents eq => ?_
  refine .bind (.fresh fun _ => .null) ?_
  rintro l' _ grows ⟨n, rfl, -⟩
  cases found : parentsOf values with
  | ok cs =>
    rw [found] at eq
    cases eq
    refine .pure ⟨up.derived n name (fun v hv => up.mono (h v hv) grows) found, ?_⟩
    exact isFormed_of_ne (by simp)
  | error fault =>
    rw [found] at eq
    cases eq

theorem Value.newEnumeration_made {named : Arguments} (name : String)
    (h : ∀ m ∈ named, H l m.2) : Records l (newEnumeration name named) (Made H) := by
  refine .read (Enumeration.members_gives name h) fun ms hms => ?_
  exact up.newSimple (fun _ => rfl) fun _ => List.forall_mem_map.mpr hms

/-! ## Children and fields -/

namespace Descriptor

variable {v : Value} {items : List Value} {entries : Entries}

theorem acceptChild_records (hv : H l v) :
    Records l (acceptChild v) fun l' c => Gives c fun w => H l' w ∧ w.IsNode := by
  unfold acceptChild
  split
  · exact .pure (.ok ⟨hv, _, _, _, rfl⟩)
  · refine .bind (.fresh fun n => .node (.made n) .base []) ?_
    rintro l' _ - ⟨n, rfl, card⟩
    refine .pure (.ok ⟨up.node (Value.isFormed_node .nil) ?_ (List.forall_mem_nil _), _, _, _, rfl⟩)
    exact Value.recorded_of_card rfl card
  · exact .pure .error
  · exact .pure .error

theorem acceptChildren_records (h : ∀ v ∈ items, H l v) (position : Nat) :
    Records l (acceptChildren position items) fun l' c => Gives c fun ws =>
      ws.length = items.length ∧ ∀ w ∈ ws, H l' w ∧ w.IsNode := by
  induction items generalizing l position with
  | nil => exact .pure (.ok ⟨rfl, List.forall_mem_nil _⟩)
  | cons v rest ih =>
    obtain ⟨hv, hrest⟩ := List.forall_mem_cons.mp h
    refine .bind (acceptChild_records up hv) fun l₁ head grows₁ hhead => ?_
    have tail := ih (fun w hw => up.mono (hrest w hw) grows₁) (position + 1)
    refine .bind tail fun l₂ tail grows₂ htail => .pure ?_
    refine (hhead.within _).cons htail fun w ws hw hws => ?_
    refine ⟨congrArg (· + 1) hws.1, List.forall_mem_cons.mpr ⟨?_, hws.2⟩⟩
    exact ⟨up.mono hw.1 grows₂, hw.2⟩

theorem acceptTuple_records (h : ∀ v ∈ items, H l v) :
    Records l (acceptTuple items) fun l' c => Gives c fun w => H l' w ∧
      ∃ nodes, w = .tuple .transient nodes ∧ nodes.length = items.length ∧
        ∀ w ∈ nodes, w.IsNode := by
  refine .bind (acceptChildren_records up h 0) fun l' c _ hc => .pure ?_
  refine hc.map fun ws hws => ⟨up.tuple fun w hw => (hws.2 w hw).1, ws, rfl, hws.1, ?_⟩
  exact fun w hw => (hws.2 w hw).2

omit up in
theorem textFor?_records : Records l (textFor? v) fun _ _ => True := by
  unfold textFor?
  split
  · exact .pure trivial
  · exact .read .any fun _ _ => .pure trivial
  · exact .pure trivial

omit up in
theorem acceptName_records :
    Records l (acceptName v) fun _ c => Gives c fun w => ∃ s, w = .text s := by
  refine .bind textFor?_records fun l' text? _ _ => ?_
  split
  · exact .pure (.ok ⟨_, rfl⟩)
  · exact .pure .error

theorem acceptFields_records (h : ∀ e ∈ entries, H l e.2) :
    Records l (acceptFields entries) fun l' c => Gives c fun es =>
      ∀ e ∈ es, (∃ s, e.1 = .text s) ∧ H l' e.2 ∧ e.2.IsNode := by
  induction entries generalizing l with
  | nil => exact .pure (.ok (List.forall_mem_nil _))
  | cons e rest ih =>
    obtain ⟨he, hrest⟩ := List.forall_mem_cons.mp h
    refine .bind acceptName_records fun l₁ name grows₁ hname => ?_
    refine .bind (acceptChild_records up (up.mono he grows₁)) fun l₂ child grows₂ hchild => ?_
    have tail := ih fun f hf => up.mono (hrest f hf) (grows₁.trans grows₂)
    refine .bind tail fun l₃ tail grows₃ htail => .pure ?_
    refine ((hname.and hchild).within _).cons htail fun f fs hf hfs => ?_
    exact List.forall_mem_cons.mpr ⟨⟨hf.1, up.mono hf.2.1 grows₃, hf.2.2⟩, hfs⟩

/-! ## Sets of values -/

omit up in
/-- Only literal values are let through as values of a literal. -/
theorem isLiteral_of_accepted (accepted : literalRefusal? items = none) :
    items ≠ [] ∧ ∀ v ∈ items, v.isLiteral = true := by
  unfold literalRefusal? at accepted
  split at accepted
  · cases accepted
  case isFalse nonempty =>
    refine ⟨by simpa using nonempty, fun v hv => ?_⟩
    have fit := List.find?_eq_none.mp (Option.map_eq_none_iff.mp accepted) v hv
    simpa using fit

omit up in
/-- Only texts and numbers that can be compared are let through as members of an enumeration. -/
theorem isEnumerable_of_accepted (accepted : enumRefusal? items = none) :
    items ≠ [] ∧ ∀ v ∈ items,
      v.isEnumerable = true ∧ ∀ x, v.double? = some x → x.isNaN = false := by
  unfold enumRefusal? at accepted
  split at accepted
  · cases accepted
  case isFalse nonempty =>
    refine ⟨by simpa using nonempty, fun v hv => ?_⟩
    have fit := List.findSome?_eq_none_iff.mp accepted v hv
    unfold memberRefusal? at fit
    split at fit
    · cases fit
    case isFalse enumerable =>
      refine ⟨by simpa using enumerable, fun x double => ?_⟩
      rw [double] at fit
      simpa using fit

theorem unlessRefused_gives {refusal? : Option Refusal} {Q : Value → Prop}
    (h : ∀ v ∈ items, H l v) (accepted : refusal? = none → Q (.tuple .transient items)) :
    Gives (unlessRefused refusal? items) fun w => H l w ∧ Q w := by
  cases refusal? with
  | none => exact .ok ⟨up.tuple h, accepted rfl⟩
  | some reason => exact .error

theorem acceptValues_records (model : Model) (hv : H l v) :
    Records l (acceptPart model .values v) fun l' c =>
      Gives c fun w => H l' w ∧ Part.values.Form model w := by
  by_cases enum : model = .of .enum
  · simp only [acceptPart, if_pos enum]
    refine .read ((up.lenient l).membersOf hv).mapError fun items h => .pure ?_
    refine unlessRefused_gives up h fun accepted => ?_
    obtain ⟨nonempty, may⟩ := isEnumerable_of_accepted accepted
    exact ⟨items, rfl, nonempty, by simpa only [if_pos enum] using may⟩
  · simp only [acceptPart, if_neg enum]
    refine .read ((up.lenient l).valuesOf hv).mapError fun items h => .pure ?_
    refine unlessRefused_gives up h fun accepted => ?_
    obtain ⟨nonempty, may⟩ := isLiteral_of_accepted accepted
    exact ⟨items, rfl, nonempty, by simpa only [if_neg enum] using may⟩

/-! ## Parts -/

/-- The fields of a shape have different names: of two under one name the later stays. -/
theorem shape_formed {model : Model}
    (h : ∀ e ∈ entries, (∃ s, e.1 = .text s) ∧ H l e.2 ∧ e.2.IsNode) :
    H l (.frozen (Entries.merge [] entries)) ∧
      Part.shape.Form model (.frozen (Entries.merge [] entries)) := by
  have merged : ∀ e ∈ Entries.merge [] entries, (∃ s, e.1 = .text s) ∧ H l e.2 ∧ e.2.IsNode :=
    Value.forall_merge (P := fun k => ∃ s, k = .text s) (Q := fun w => H l w ∧ w.IsNode)
      (List.forall_mem_nil _) h
  have held : ∀ e ∈ Entries.merge [] entries, H l e.1 ∧ H l e.2 := by
    intro e he
    obtain ⟨⟨s, text⟩, held, -⟩ := merged e he
    exact ⟨text ▸ up.flat rfl rfl, held⟩
  refine ⟨up.simple rfl (Value.forall_mem_keys_append_values.mpr held), _, rfl, ?_, ?_⟩
  · exact Value.nodup_keys_merge List.nodup_nil fun e he => (h e he).1
  · exact fun e he => ⟨(merged e he).1, (merged e he).2.2⟩

/-- **`acceptPart_records`** — what is accepted for a part is in the form of the part. -/
theorem acceptPart_records (model : Model) (part : Part) (hv : H l v) :
    Records l (acceptPart model part v) fun l' c =>
      Gives c fun w => H l' w ∧ part.Form model w := by
  have lenient := up.lenient l
  cases part with
  | values => exact acceptValues_records up model hv
  | items =>
    unfold acceptPart
    dsimp only
    split
    case h_1 items found =>
      refine (acceptTuple_records up (lenient.tupleElements hv found)).mono ?_
      intro l' c _ hc w hw
      obtain ⟨held, nodes, eq, -, all⟩ := hc w hw
      exact ⟨held, nodes, eq, all⟩
    case h_2 => exact .pure .error
  | options =>
    refine .read (lenient.gather hv).mapError fun items h => ?_
    split
    · exact .pure .error
    case isFalse nonempty =>
      refine (acceptTuple_records up h).mono fun l' c _ hc w hw => ?_
      obtain ⟨held, nodes, eq, length, all⟩ := hc w hw
      refine ⟨held, nodes, eq, ?_, all⟩
      rintro rfl
      exact nonempty (List.isEmpty_iff_length_eq_zero.mpr length.symm)
  | shape =>
    unfold acceptPart
    dsimp only
    split
    case h_1 entries found =>
      have fields := acceptFields_records up fun e he => (lenient.entries hv found e he).2
      exact .bind fields fun l' c _ hc => .pure (hc.map fun es hes => shape_formed up hes)
    case h_2 => exact .pure .error
  | label =>
    refine .bind textFor?_records fun l' text? _ _ => ?_
    split
    · exact .pure (.ok ⟨up.flat rfl rfl, _, rfl⟩)
    · exact .pure .error
  | predicate =>
    refine .pure ?_
    split
    case isTrue accepted => exact .ok ⟨hv, accepted⟩
    case isFalse => exact .error
  | target =>
    refine .pure ?_
    split
    case isTrue accepted => exact .ok ⟨hv, accepted⟩
    case isFalse => exact .error
  | _ => exact acceptChild_records up hv

theorem default?_formed (model : Model) {part : Part} (h : part.default? = some v) :
    H l v ∧ part.Form model v := by
  cases part with
  | items =>
    cases h
    exact ⟨up.flat rfl rfl, [], rfl, List.forall_mem_nil _⟩
  | shape =>
    cases h
    exact ⟨up.flat rfl rfl, [], rfl, List.nodup_nil, List.forall_mem_nil _⟩
  | label =>
    cases h
    exact ⟨up.flat rfl rfl, _, rfl⟩
  | predicate =>
    cases h
    exact ⟨up.flat rfl rfl, rfl⟩
  | target =>
    cases h
    exact ⟨up.flat rfl rfl, rfl⟩
  | _ => cases h

/-! ## Nodes -/

variable {args : Arguments}

theorem acceptArgument_records (model : Model) (part : Part) (hargs : ∀ arg ∈ args, H l arg.2) :
    Records l (acceptArgument model args part) fun l' c =>
      Gives c fun w => H l' w ∧ part.Form model w := by
  have placed {x : Build (Checked Value)}
      (hx : Records l x fun l' c => Gives c fun w => H l' w ∧ part.Form model w) :
      Records l (x >>= fun c => pure (c.within (.name part.name))) fun l' c =>
        Gives c fun w => H l' w ∧ part.Form model w :=
    hx.bind fun _ _ _ hc => .pure (hc.within _)
  unfold acceptArgument
  dsimp only
  split
  case h_1 v given =>
    exact placed (acceptPart_records up model part (hargs _ (mem_of_lookup given)))
  case h_2 =>
    split
    case h_1 v usual => exact placed (.pure (.ok (default?_formed up model usual)))
    case h_2 => exact placed (.pure .error)

/-- The parts that are kept are those that were asked for, in the same order. -/
theorem acceptParts_records (model : Model) (wanted : List Part)
    (hargs : ∀ arg ∈ args, H l arg.2) :
    Records l (acceptParts model args wanted) fun l' c => Gives c fun parts =>
      (∀ p ∈ parts, H l' p.2) ∧
        List.Forall₂ (fun part p => p.1 = part ∧ part.Form model p.2) wanted parts := by
  induction wanted generalizing l with
  | nil => exact .pure (.ok ⟨List.forall_mem_nil _, .nil⟩)
  | cons part rest ih =>
    refine .bind (acceptArgument_records up model part hargs) fun l₁ head grows₁ hhead => ?_
    have tail := ih fun arg harg => up.mono (hargs arg harg) grows₁
    refine .bind tail fun l₂ tail grows₂ htail => .pure ?_
    have one : Gives (head.map fun v => (part, v)) fun p =>
        H l₂ p.2 ∧ p.1 = part ∧ part.Form model p.2 :=
      hhead.map fun w hw => ⟨up.mono hw.1 grows₂, rfl, hw.2⟩
    exact one.cons htail fun p ps hp hps =>
      ⟨List.forall_mem_cons.mpr ⟨hp.1, hps.1⟩, .cons hp.2 hps.2⟩

/-- **`construct_made`** — a node that is constructed keeps each part in its form. -/
theorem construct_made (model : Model) (hargs : ∀ arg ∈ args, H l arg.2) :
    Records l (construct model args) (Made H) := by
  refine .bind (acceptParts_records up model model.parts hargs) fun l' c _ hc => ?_
  split
  case h_1 parts _ both =>
    obtain ⟨⟨held, formed⟩, -⟩ := hc.and .any _ both
    exact up.newNode formed held
  case h_2 => exact .throw _

theorem constructObject_made (h : ∀ e ∈ entries, H l e.1 ∧ H l e.2) :
    Records l (constructObject entries) (Made H) :=
  construct_made up _ (List.forall_mem_singleton.mpr (up.transient h))

end Descriptor

open Descriptor

/-! ## Builders and methods -/

variable {v : Value} {values : List Value}

omit up in
/-- Values under names are as they were without. -/
theorem forall_mem_zip_snd {names : List String} {P : Value → Prop} (h : ∀ v ∈ values, P v) :
    ∀ arg ∈ names.zip values, P arg.2 := fun arg harg => h arg.2 (List.of_mem_zip harg).2

theorem Builder.constructTest_made (hv : H l v) : Records l (constructTest v) (Made H) := by
  unfold constructTest
  split
  · exact .throw _
  · refine .bind (.fresh fun _ => .null) fun l' id grows _ => construct_made up _ ?_
    have target := up.mono hv grows
    have test : H l' (.classTest id v) := up.simple rfl (List.forall_mem_singleton.mpr target)
    simp only [List.forall_mem_cons]
    exact ⟨up.flat rfl rfl, test, target, List.forall_mem_nil _⟩

theorem Builder.gathered_records (h : ∀ v ∈ values, H l v) :
    Records l (gathered values) fun l' ws => ∀ w ∈ ws, H l' w := by
  cases values with
  | nil => exact .pure (List.forall_mem_nil _)
  | cons v rest =>
    obtain ⟨hv, hrest⟩ := List.forall_mem_cons.mp h
    refine .read ((up.lenient l).gather hv).mapError fun items hitems => .pure ?_
    exact List.forall_mem_cons.mpr ⟨up.tuple hitems, hrest⟩

theorem Builder.make_made (builder : Builder) (h : ∀ v ∈ values, H l v) :
    Records l (builder.make values) (Made H) := by
  have lenient := up.lenient l
  unfold make
  split
  · exact constructTest_made up (lenient.headD h)
  · exact construct_made up _ (List.forall_mem_singleton.mpr (up.tuple h))
  · exact .bind (gathered_records up h) fun _ ws _ hws =>
      construct_made up _ (forall_mem_zip_snd hws)
  · exact .bind (gathered_records up h) fun _ ws _ hws =>
      construct_made up _ (forall_mem_zip_snd hws)
  · exact .read (lenient.shapeFrom (lenient.headD h)) fun es hes => constructObject_made up hes
  · exact construct_made up _ (forall_mem_zip_snd h)
  · exact construct_made up _ (forall_mem_zip_snd h)

theorem Builder.apply_made (builder : Builder) (h : ∀ v ∈ values, H l v) :
    Records l (builder.apply values) (Made H) :=
  .read .any fun _ _ => builder.make_made up h

theorem Method.extendWith_made {shape : Option Value} (hs : ∀ w, shape = some w → H l w)
    (hv : H l v) : Records l (extendWith shape v) (Made H) := by
  have known : H l (shape.getD .null) := by
    cases shape with
    | none => exact up.flat rfl rfl
    | some w => exact hs w rfl
  unfold extendWith
  dsimp only
  split
  · exact .throw _
  case h_2 entries found =>
    refine .read ((up.lenient l).entriesOf hv) fun further hf => ?_
    exact constructObject_made up (Value.forall_merge ((up.lenient l).entries known found) hf)

theorem Method.make_made (method : Method) (hv : H l v) (h : ∀ v ∈ values, H l v) :
    Records l (method.make v values) (Made H) := by
  have lenient := up.lenient l
  cases method with
  | extend => exact extendWith_made up (fun _ found => lenient.stored hv found) (lenient.headD h)
  | _ => exact construct_made up _ (List.forall_mem_singleton.mpr hv)

theorem Callee.apply_made {callee : Callee} (hc : callee.Holds (H l)) (h : ∀ v ∈ values, H l v) :
    Records l (callee.apply values) (Made H) := by
  cases callee with
  | ofNode method node => exact .read .any fun _ _ => method.make_made up hc h
  | other value => exact Value.call_made up hc h
  | listExtension =>
    unfold apply
    dsimp only
    split
    · exact .read .any fun _ _ => .pure (up.made_flat rfl rfl)
    · exact .throw _

theorem Wrap.once_made (wrap : Wrap) (hv : H l v) : Records l (wrap.once v) (Made H) := by
  have single : H l (.tuple .transient [v]) := up.tuple (List.forall_mem_singleton.mpr hv)
  -- The other side is made first, and the node around both then.
  have side (kind : Kind) {f : Value → Arguments} {model : Model}
      (hf : ∀ l' w, H l' v → H l' w → ∀ arg ∈ f w, H l' arg.2) :
      Records l (construct (.of kind) [] >>= fun w => construct model (f w)) (Made H) :=
    .bind (construct_made up _ (List.forall_mem_nil _)) fun l' w grows hw =>
      construct_made up _ (hf l' w (up.mono hv grows) hw.1)
  cases wrap with
  | array => exact construct_made up _ (List.forall_mem_singleton.mpr hv)
  | optional => exact construct_made up _ (List.forall_mem_singleton.mpr hv)
  | nullable => exact construct_made up _ (List.forall_mem_singleton.mpr hv)
  | tuple => exact construct_made up _ (List.forall_mem_singleton.mpr single)
  | union => exact construct_made up _ (List.forall_mem_singleton.mpr single)
  | object => exact constructObject_made up (List.forall_mem_singleton.mpr ⟨up.flat rfl rfl, hv⟩)
  | record =>
    exact side .string fun l' w hv hw =>
      List.forall_mem_cons.mpr ⟨hw, List.forall_mem_singleton.mpr hv⟩
  | leftSide =>
    exact side .never fun l' w hv hw =>
      List.forall_mem_cons.mpr ⟨hv, List.forall_mem_singleton.mpr hw⟩
  | rightSide =>
    exact side .symbol fun l' w hv hw =>
      List.forall_mem_cons.mpr ⟨hw, List.forall_mem_singleton.mpr hv⟩

end Walk

end Conformance
