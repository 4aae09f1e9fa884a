/-
# Conformance.Proofs.Construction — what is constructed is well-formed.

A value is built (`Value.IsBuilt`) if, however deep one looks, every node is a well-formed tree and
every class and instance is as one that was made.  A node whose parts are built and in their forms
is the node of a well-formed tree, so this is upheld by everything that makes values.  Therefore an
expression that nowhere makes a node from parts as they are has a built value, whatever it gives for
the parts and whatever was defined before it by such expressions.
-/
import Conformance.Proofs.Evaluation
import Conformance.Session

namespace Conformance

/-! ## Built values -/

/-- A class as one gets it: it is the same as itself, and no other class holds truth values. -/
def ClassRef.IsGenuine (c : ClassRef) : Prop :=
  c.same c = true ∧ (c.layout = .bool → c = .base .bool)

theorem ClassRef.IsGenuine.base (b : BaseClass) : (ClassRef.base b).IsGenuine :=
  ⟨beq_self_eq_true b, congrArg ClassRef.base⟩

namespace Value

/-- The node of a well-formed tree. -/
def IsDescriptor (v : Value) : Prop := ∃ s : Schema, s.WellFormed ∧ s.value = v

/-- What is asked of a value itself: a node is that of a well-formed tree, and a class, or that of
an instance, is one that there can be. -/
def IsProper : Value → Prop
  | .node id model parts => (Value.node id model parts).IsDescriptor
  | .cls c => c.IsGenuine
  | v => v.HasClass

/-- **`IsBuilt`** — the value and everything in it is proper. -/
def IsBuilt (v : Value) : Prop := Throughout contents IsProper v

variable {v : Value}

theorem IsBuilt.isDescriptor {id : Ident} {model : Model} {parts : List (Part × Value)}
    (h : (Value.node id model parts).IsBuilt) : (Value.node id model parts).IsDescriptor :=
  h.here

theorem IsBuilt.hasClass (h : v.IsBuilt) : v.HasClass := by
  cases v with
  | node id model parts => trivial
  | cls c => trivial
  | _ => exact h.here

/-! ## Classes -/

theorem parentClasses_gives {values : List Value} (h : ∀ v ∈ values, v.IsBuilt) (held : ClassRef) :
    Gives (parentClasses held values) fun cs => ∀ c ∈ cs, c.layout ≠ .bool := by
  induction values generalizing held with
  | nil => exact .ok (List.forall_mem_nil _)
  | cons v rest ih =>
    obtain ⟨hv, hrest⟩ := List.forall_mem_cons.mp h
    cases v with
    | cls c =>
      -- The class of truth values is refused, and no other holds them.
      have unclosed : Gives (held.addLayout c) fun _ => c.layout ≠ .bool := by
        intro wider accepted layout
        rw [hv.here.2 layout] at accepted
        cases accepted
      exact unclosed.bind fun wider hc => (ih hrest wider).bind fun cs hcs =>
        .ok (List.forall_mem_cons.mpr ⟨hc, hcs⟩)
    | _ => exact .error

end Value

theorem ClassRef.layoutAmong_ne_bool {cs : List ClassRef} (h : ∀ c ∈ cs, c.layout ≠ .bool) :
    ClassRef.layoutAmong cs ≠ .bool := by
  induction cs with
  | nil => simp [ClassRef.layoutAmong]
  | cons c rest ih =>
    obtain ⟨hc, hrest⟩ := List.forall_mem_cons.mp h
    rw [ClassRef.layoutAmong]
    split
    · exact ih hrest
    · exact hc

namespace Value

theorem parentsOf_gives {values : List Value} (h : ∀ v ∈ values, v.IsBuilt) :
    Gives (parentsOf values) fun cs => ∀ c ∈ cs, c.layout ≠ .bool := by
  unfold parentsOf
  dsimp only
  split
  · exact .error
  split
  · exact .error
  refine (parentClasses_gives h _).bind fun cs hcs => ?_
  refine .bind .any fun _ _ => .ok ?_
  split
  · exact List.forall_mem_singleton.mpr (by simp [ClassRef.layout])
  · exact hcs

end Value

/-! ## Nodes -/

/-- A list of which every element is an image is the image of a list. -/
theorem exists_map_eq {α β : Type} {P : α → Prop} {f : α → β} {l : List β}
    (h : ∀ b ∈ l, ∃ a, P a ∧ f a = b) : ∃ as : List α, (∀ a ∈ as, P a) ∧ as.map f = l := by
  induction l with
  | nil => exact ⟨[], List.forall_mem_nil _, rfl⟩
  | cons b rest ih =>
    obtain ⟨⟨a, ha, rfl⟩, hrest⟩ := List.forall_mem_cons.mp h
    obtain ⟨as, has, rfl⟩ := ih hrest
    exact ⟨a :: as, List.forall_mem_cons.mpr ⟨ha, has⟩, rfl⟩

/-- **`Part.Admits model part v`** — the value may be kept as the part of a well-formed node. -/
def Part.Admits (model : Model) : Part → Value → Prop
  | .values, v => ∃ values, v = .tuple .transient values ∧ values ≠ [] ∧
      ∀ x ∈ values, if model = .of .enum then x.MayEnumerate else x.MayList
  | .items, v => ∃ ss : List Schema, (∀ s ∈ ss, s.WellFormed) ∧
      v = .tuple .transient (ss.map Schema.value)
  | .options, v => ∃ ss : List Schema, (∀ s ∈ ss, s.WellFormed) ∧ ss ≠ [] ∧
      v = .tuple .transient (ss.map Schema.value)
  | .shape, v => ∃ fs : List (String × Schema), (∀ f ∈ fs, f.2.WellFormed) ∧
      (fs.map Prod.fst).Nodup ∧ v = .frozen (fs.map Schema.entry)
  | .label, v => ∃ s, v = .text s
  | .predicate, v => (v.same .null || v.isCallable) = true
  | .target, v => (v.same .null || v.isClass) = true
  | _, v => v.IsDescriptor

/-- A part as a well-formed node keeps it, under its name. -/
def Part.IsKept (model : Model) (part : Part) (p : Part × Value) : Prop :=
  p.1 = part ∧ part.Admits model p.2

theorem Value.isDescriptor_of_isNode {v : Value} (built : v.IsBuilt) (node : v.IsNode) :
    v.IsDescriptor := by
  obtain ⟨id, model, parts, rfl⟩ := node
  exact built.isDescriptor

/-- Built nodes are those of well-formed trees. -/
theorem Value.exists_schemas {nodes : List Value} (built : ∀ w ∈ nodes, w.IsBuilt)
    (all : ∀ w ∈ nodes, w.IsNode) :
    ∃ ss : List Schema, (∀ s ∈ ss, s.WellFormed) ∧ ss.map Schema.value = nodes :=
  exists_map_eq fun w hw => isDescriptor_of_isNode (built w hw) (all w hw)

/-- **`Part.Form.admits`** — what is built and in the form of a part may be kept as the part. -/
theorem Part.Form.admits {model : Model} {part : Part} {v : Value} (form : part.Form model v)
    (built : v.IsBuilt) : part.Admits model v := by
  cases part with
  | values =>
    obtain ⟨values, rfl, nonempty, listed⟩ := form
    refine ⟨values, rfl, nonempty, fun x hx => ?_⟩
    have fit := listed x hx
    have hasClass : x.HasClass := Value.IsBuilt.hasClass (built.of_mem hx)
    by_cases enum : model = .of .enum
    · rw [if_pos enum] at fit ⊢
      exact ⟨fit.1, fit.2, hasClass⟩
    · rw [if_neg enum] at fit ⊢
      exact ⟨fit, hasClass⟩
  | items =>
    obtain ⟨nodes, rfl, all⟩ := form
    obtain ⟨ss, hss, rfl⟩ := Value.exists_schemas (fun w hw => built.of_mem hw) all
    exact ⟨ss, hss, rfl⟩
  | options =>
    obtain ⟨nodes, rfl, nonempty, all⟩ := form
    obtain ⟨ss, hss, rfl⟩ := Value.exists_schemas (fun w hw => built.of_mem hw) all
    exact ⟨ss, hss, fun none => nonempty (by rw [none]; rfl), rfl⟩
  | shape =>
    obtain ⟨fields, rfl, distinct, all⟩ := form
    have inside := Value.forall_mem_keys_append_values.mp fun w hw => built.of_mem hw
    have entries : ∀ e ∈ fields, ∃ f : String × Schema, f.2.WellFormed ∧ Schema.entry f = e := by
      intro e he
      obtain ⟨⟨s, text⟩, node⟩ := all e he
      obtain ⟨t, wellFormed, eq⟩ := Value.isDescriptor_of_isNode (inside e he).2 node
      exact ⟨(s, t), wellFormed, Prod.ext text.symm eq⟩
    obtain ⟨fs, hfs, rfl⟩ := exists_map_eq entries
    rw [Schema.keys_entries] at distinct
    exact ⟨fs, hfs, distinct.of_map _, rfl⟩
  | label => exact form
  | predicate => exact form
  | target => exact form
  | _ => exact Value.isDescriptor_of_isNode built form

section Nodes

variable {model : Model} {parts : List (Part × Value)} {part other : Part}

theorem kept_of_forms {wanted : List Part}
    (forms : List.Forall₂ (fun part p => p.1 = part ∧ part.Form model p.2) wanted parts)
    (built : ∀ p ∈ parts, p.2.IsBuilt) : List.Forall₂ (Part.IsKept model) wanted parts := by
  induction forms with
  | nil => exact .nil
  | cons hp _ ih =>
    obtain ⟨here, rest⟩ := List.forall_mem_cons.mp built
    exact .cons ⟨hp.1, hp.2.admits here⟩ (ih rest)

theorem kept_one (h : List.Forall₂ (Part.IsKept model) [part] parts) :
    ∃ v, parts = [(part, v)] ∧ part.Admits model v := by
  obtain ⟨⟨_, v⟩, rest, ⟨rfl, admitted⟩, last, rfl⟩ := List.forall₂_cons_left_iff.mp h
  cases last
  exact ⟨v, rfl, admitted⟩

theorem kept_two (h : List.Forall₂ (Part.IsKept model) [part, other] parts) :
    ∃ v w, parts = [(part, v), (other, w)] ∧ part.Admits model v ∧ other.Admits model w := by
  obtain ⟨⟨_, v⟩, rest, ⟨rfl, admitted⟩, one, rfl⟩ := List.forall₂_cons_left_iff.mp h
  obtain ⟨w, rfl, admittedToo⟩ := kept_one one
  exact ⟨v, w, rfl, admitted, admittedToo⟩

theorem plain_isDescriptor (n : Nat) (sort : Plain) :
    (Value.node (.made n) (.of sort.kind) []).IsDescriptor :=
  ⟨.plain (.made n) sort, Schema.everywhere_plain.mpr ⟨⟨n, rfl⟩, trivial⟩, rfl⟩

/-- **`isDescriptor_of_kept`** — a new node that keeps the parts of its model is well-formed. -/
theorem isDescriptor_of_kept (n : Nat) (h : List.Forall₂ (Part.IsKept model) model.parts parts) :
    (Value.node (.made n) model parts).IsDescriptor := by
  have made : ∃ m, Ident.made n = .made m := ⟨n, rfl⟩
  cases model with
  | base =>
    cases h
    exact ⟨.bare (.made n), Schema.everywhere_bare.mpr ⟨made, trivial⟩, rfl⟩
  | of kind =>
    cases kind with
    | literal =>
      obtain ⟨_, rfl, values, rfl, nonempty, may⟩ := kept_one h
      exact ⟨.literal (.made n) values,
        Schema.everywhere_literal.mpr ⟨made, nonempty, by simpa using may⟩, rfl⟩
    | enum =>
      obtain ⟨_, rfl, values, rfl, nonempty, may⟩ := kept_one h
      exact ⟨.enum (.made n) values,
        Schema.everywhere_enum.mpr ⟨made, nonempty, by simpa using may⟩, rfl⟩
    | optional =>
      obtain ⟨_, rfl, inner, hinner, rfl⟩ := kept_one h
      exact ⟨.wrap (.made n) .optional inner,
        Schema.everywhere_wrap.mpr ⟨⟨made, trivial⟩, hinner⟩, rfl⟩
    | nullable =>
      obtain ⟨_, rfl, inner, hinner, rfl⟩ := kept_one h
      exact ⟨.wrap (.made n) .nullable inner,
        Schema.everywhere_wrap.mpr ⟨⟨made, trivial⟩, hinner⟩, rfl⟩
    | array =>
      obtain ⟨_, rfl, element, helement, rfl⟩ := kept_one h
      exact ⟨.array (.made n) element,
        Schema.everywhere_array.mpr ⟨⟨made, trivial⟩, helement⟩, rfl⟩
    | tuple =>
      obtain ⟨_, rfl, items, hitems, rfl⟩ := kept_one h
      refine ⟨.tuple (.made n) items, Schema.everywhere_tuple.mpr ⟨⟨made, trivial⟩, hitems⟩, ?_⟩
      rw [Schema.value, Schema.itemValues_eq]
    | object =>
      obtain ⟨_, rfl, fields, hfields, distinct, rfl⟩ := kept_one h
      refine ⟨.object (.made n) fields,
        Schema.everywhere_object.mpr ⟨⟨made, distinct⟩, hfields⟩, ?_⟩
      rw [Schema.value, Schema.fieldValues_eq, Schema.shapeOf]
    | record =>
      obtain ⟨_, _, rfl, ⟨key, hkey, rfl⟩, val, hval, rfl⟩ := kept_two h
      exact ⟨.record (.made n) key val,
        Schema.everywhere_record.mpr ⟨⟨made, trivial⟩, hkey, hval⟩, rfl⟩
    | union =>
      obtain ⟨_, rfl, options, hoptions, nonempty, rfl⟩ := kept_one h
      refine ⟨.union (.made n) options,
        Schema.everywhere_union.mpr ⟨⟨made, nonempty⟩, hoptions⟩, ?_⟩
      rw [Schema.value, Schema.itemValues_eq]
    | intersection =>
      obtain ⟨_, _, rfl, ⟨left, hleft, rfl⟩, right, hright, rfl⟩ := kept_two h
      exact ⟨.intersection (.made n) left right,
        Schema.everywhere_intersection.mpr ⟨⟨made, trivial⟩, hleft, hright⟩, rfl⟩
    | custom =>
      obtain ⟨⟨_, _⟩, _, ⟨rfl, label, rfl⟩, rest, rfl⟩ := List.forall₂_cons_left_iff.mp h
      obtain ⟨predicate, target, rfl, hpredicate, htarget⟩ := kept_two rest
      exact ⟨.custom (.made n) label predicate target,
        Schema.everywhere_custom.mpr ⟨made, hpredicate, htarget⟩, rfl⟩
    | string => cases h; exact plain_isDescriptor n .string
    | number => cases h; exact plain_isDescriptor n .number
    | boolean => cases h; exact plain_isDescriptor n .boolean
    | bigint => cases h; exact plain_isDescriptor n .bigint
    | symbol => cases h; exact plain_isDescriptor n .symbol
    | undefined => cases h; exact plain_isDescriptor n .undefined
    | null => cases h; exact plain_isDescriptor n .null
    | any => cases h; exact plain_isDescriptor n .any
    | unknown => cases h; exact plain_isDescriptor n .unknown
    | never => cases h; exact plain_isDescriptor n .never

end Nodes

/-! ## What is made of built values -/

/-- **`upheld_isBuilt`** — whatever is made of built values is built. -/
theorem Value.upheld_isBuilt : Upheld fun _ => IsBuilt where
  mono built _ := built
  contents built _ hw := built.of_mem hw
  simple {_ v} simple h := by
    refine .intro ?_ h
    cases v with
    | cls c => cases simple
    | object id c => cases simple
    | node id model parts => cases simple
    | _ => trivial
  changeable {_ v} change _ h := by
    refine .intro ?_ h
    cases v with
    | list id items => trivial
    | dict id entries => trivial
    | lookalike id attributes => trivial
    | _ => cases change
  baseClass b := .of_flat (ClassRef.IsGenuine.base b) rfl
  derived n name h parents := by
    have distinct := parentsOf_gives h _ parents
    refine .of_flat ⟨by simp [ClassRef.same, Ident.same], fun layout => ?_⟩ rfl
    exact absurd layout (ClassRef.layoutAmong_ne_bool distinct)
  object _ hc other := .of_flat ⟨hc.here.1, fun layout => other (hc.here.2 layout)⟩ rfl
  node {_ n _ _} formed _ h := by
    obtain ⟨-, forms⟩ := formed _ _ _ rfl
    refine .intro (isDescriptor_of_kept n (kept_of_forms forms h)) (List.forall_mem_map.mpr h)

/-- **`isBuilt_of_eval`** — where built values are bound, a checked expression has a built value. -/
theorem Expr.isBuilt_of_eval {scope : Scope} {e : Expr} {v : Value} {n m : Nat} (h : e.IsChecked)
    (bound : ∀ p ∈ scope, p.2.IsBuilt) (value : e.eval scope n = .ok (v, m)) : v.IsBuilt := by
  have none : Ledger.Below (fun _ => none) n := fun _ _ card => by cases card
  obtain ⟨_, -, -, built⟩ := eval_holds Value.upheld_isBuilt (.inr h) bound n none v m value
  exact built

/-! ## Definitions -/

namespace Session

/-- Definitions by checked expressions bind built values. -/
theorem define_gives {definitions : List (String × Expr)} {s : Session}
    (h : ∀ d ∈ definitions, d.2.IsChecked) (bound : ∀ p ∈ s.scope, p.2.IsBuilt) :
    Gives (s.define definitions) fun t => ∀ p ∈ t.scope, p.2.IsBuilt := by
  induction definitions generalizing s with
  | nil => exact .ok bound
  | cons d rest ih =>
    obtain ⟨hd, hrest⟩ := List.forall_mem_cons.mp h
    unfold define
    split
    case h_1 v next value =>
      refine ih hrest fun p hp => ?_
      rcases Schema.mem_putName hp with hp | rfl
      · exact bound p hp
      · exact Expr.isBuilt_of_eval hd bound value
    case h_2 => exact .error

/-- **`wellFormed_of_checked`** — a node that is the value of a checked expression, after
definitions by checked expressions, is that of a well-formed tree: every node in it has all the
parts of its model, and each part is what a builder lets through. -/
theorem wellFormed_of_checked {definitions : List (String × Expr)} {s : Session} {e : Expr}
    {id : Ident} {model : Model} {parts : List (Part × Value)} {next : Nat}
    (hd : ∀ d ∈ definitions, d.2.IsChecked) (he : e.IsChecked)
    (defined : Session.empty.define definitions = .ok s)
    (value : e.eval s.scope s.next = .ok (.node id model parts, next)) :
    ∃ t : Schema, t.WellFormed ∧ t.value = .node id model parts := by
  have bound : ∀ p ∈ s.scope, p.2.IsBuilt := define_gives hd (List.forall_mem_nil _) s defined
  exact (Expr.isBuilt_of_eval he bound value).isDescriptor

/-- A child may be an empty mapping, and a node that is extended keeps its fields. -/
theorem extended_object_wellFormed :
    ∃ s id parts next,
      Session.empty.define
          [("point", .build (.of .object) [.dict [(.text "x", .dict [])]])] = .ok s ∧
        (Expr.call "extend" (.ref "point") [.dict [(.text "y", .build (.of .union)
          [.list [.build (.of .enum) [.text "up"], .ref "point"]])]]).eval s.scope s.next =
            .ok (.node id (.of .object) parts, next) ∧
        ∃ t : Schema, t.WellFormed ∧ t.value = .node id (.of .object) parts := by
  have along {p q : Prop} (hp : p) (hq : p → q) : p ∧ q := ⟨hp, hq hp⟩
  have shape (name : String) {e : Expr} (he : e.IsChecked) :
      (Expr.dict [(.text name, e)]).IsChecked :=
    .intro rfl (List.forall_mem_cons.mpr ⟨.of_flat rfl rfl, List.forall_mem_singleton.mpr he⟩)
  have build (builder : Builder) {e : Expr} (he : e.IsChecked) :
      (Expr.build builder [e]).IsChecked :=
    .intro rfl (List.forall_mem_singleton.mpr he)
  have point : (Expr.ref "point").IsChecked := .of_flat rfl rfl
  refine ⟨_, _, _, _, along rfl fun defined => along rfl fun value =>
    wellFormed_of_checked ?_ ?_ defined value⟩
  · exact List.forall_mem_singleton.mpr (build _ (shape "x" (.of_flat rfl rfl)))
  · have up : (Expr.build (.of .enum) [.text "up"]).IsChecked := build _ (.of_flat rfl rfl)
    have options : (Expr.list [.build (.of .enum) [.text "up"], .ref "point"]).IsChecked :=
      .intro rfl (List.forall_mem_cons.mpr ⟨up, List.forall_mem_singleton.mpr point⟩)
    refine .intro rfl (List.forall_mem_cons.mpr ⟨point, List.forall_mem_singleton.mpr ?_⟩)
    exact shape "y" (build _ options)

end Session

end Conformance
