/-
# Conformance.Proofs.Correspondence — trees that no rule tells apart.

A rule looks at two nodes: whether they are one node, their kinds, the values that they list, and
what the comparison says of the nodes below.  `Layer` relates two nodes that agree in their kinds
and listed values and whose parts are related again, so that either node is within the other.  A
relation is a `Correspondence` if related trees are so layer by layer, and if it reaches the nodes
that are made while trees are compared: the ones that stand for absence, and the merged object of an
intersection.

Whatever the comparison accepts of a pair it accepts of a corresponding pair, provided that what is
one node on the one side is one node on the other (`assignable_of_corresponds`).
-/
import Conformance.Proofs.Subsumption

namespace Conformance

/-! ## Members and their partners -/

/-- **`Partners R as bs`** — every member of either list has a partner in the other. -/
structure Partners {α β : Type} (R : α → β → Prop) (as : List α) (bs : List β) : Prop where
  left : ∀ a ∈ as, ∃ b ∈ bs, R a b
  right : ∀ b ∈ bs, ∃ a ∈ as, R a b

namespace Partners

variable {α β : Type} {R S : α → β → Prop} {as : List α} {bs : List β} {f : α → Bool} {g : β → Bool}

theorem nil : Partners R [] [] := ⟨by simp, by simp⟩

theorem of_forall₂ (h : List.Forall₂ R as bs) : Partners R as bs := by
  induction h with
  | nil => exact nil
  | @cons a b as bs head _ ih =>
    refine ⟨fun x hx => ?_, fun y hy => ?_⟩
    · rcases List.mem_cons.mp hx with rfl | hx
      · exact ⟨b, List.mem_cons_self, head⟩
      · obtain ⟨y, hy, related⟩ := ih.left x hx
        exact ⟨y, List.mem_cons_of_mem b hy, related⟩
    · rcases List.mem_cons.mp hy with rfl | hy
      · exact ⟨a, List.mem_cons_self, head⟩
      · obtain ⟨x, hx, related⟩ := ih.right y hy
        exact ⟨x, List.mem_cons_of_mem a hx, related⟩

theorem ne_nil (h : Partners R as bs) (nonempty : bs ≠ []) : as ≠ [] := by
  obtain ⟨b, hb⟩ := List.exists_mem_of_ne_nil bs nonempty
  obtain ⟨a, ha, -⟩ := h.right b hb
  exact List.ne_nil_of_mem ha

theorem all_eq (h : Partners R as bs) (eq : ∀ a b, R a b → f a = g b) : as.all f = bs.all g := by
  rw [Bool.eq_iff_iff, List.all_eq_true, List.all_eq_true]
  constructor
  · intro all b hb
    obtain ⟨a, ha, related⟩ := h.right b hb
    rw [← eq a b related]
    exact all a ha
  · intro all a ha
    obtain ⟨b, hb, related⟩ := h.left a ha
    rw [eq a b related]
    exact all b hb

theorem any_eq (h : Partners R as bs) (eq : ∀ a b, R a b → f a = g b) : as.any f = bs.any g := by
  rw [← Bool.not_inj_iff, List.not_any_eq_all_not, List.not_any_eq_all_not]
  exact h.all_eq fun a b related => by rw [eq a b related]

end Partners

/-! ## Layers -/

namespace Schema

/-- **`FieldsMatch R fields more`** — every name leads to related types or is missing on both sides,
and every field has its partner. -/
structure FieldsMatch (R : Schema → Schema → Prop) (fields more : List (String × Schema)) :
    Prop where
  lookup : ∀ name, Option.Rel R (fields.lookup name) (more.lookup name)
  partner : ∀ f ∈ fields, ∃ g ∈ more, f.1 = g.1 ∧ R f.2 g.2

/-- **`FieldsAlike R fields more`** — fields of the same names, in the same order, with related
types. -/
def FieldsAlike (R : Schema → Schema → Prop) (fields more : List (String × Schema)) : Prop :=
  List.Forall₂ (fun f g => f.1 = g.1 ∧ R f.2 g.2) fields more

namespace FieldsAlike

variable {R : Schema → Schema → Prop} {fields fields' more more' : List (String × Schema)}

/-- Where names and types are related one by one, so are the fields. -/
theorem of_types (names : fields.map Prod.fst = more.map Prod.fst)
    (h : List.Forall₂ R (fields.map Prod.snd) (more.map Prod.snd)) : FieldsAlike R fields more := by
  induction fields generalizing more with
  | nil =>
    cases more with
    | nil => exact .nil
    | cons => cases names
  | cons f rest ih =>
    cases more with
    | nil => cases names
    | cons g more =>
      obtain ⟨name, names⟩ := List.cons.inj names
      obtain ⟨head, tail⟩ := List.forall₂_cons.mp h
      exact .cons ⟨name, head⟩ (ih names tail)

theorem names_eq (h : FieldsAlike R fields fields') :
    fields.map Prod.fst = fields'.map Prod.fst := by
  induction h with
  | nil => rfl
  | cons head _ ih => rw [List.map_cons, List.map_cons, head.1, ih]

theorem types (h : FieldsAlike R fields fields') :
    List.Forall₂ R (fields.map Prod.snd) (fields'.map Prod.snd) := by
  rw [List.forall₂_map_left_iff, List.forall₂_map_right_iff]
  exact h.imp fun _ _ field => field.2

theorem lookup (h : FieldsAlike R fields fields') (name : String) :
    Option.Rel R (fields.lookup name) (fields'.lookup name) := by
  induction h with
  | nil => exact .none
  | @cons f g _ _ head _ ih =>
    obtain ⟨known, s⟩ := f
    obtain ⟨known', t⟩ := g
    obtain ⟨rfl, related⟩ := head
    rw [List.lookup_cons, List.lookup_cons]
    cases name == known with
    | true => exact .some related
    | false => exact ih

theorem fieldsMatch (h : FieldsAlike R fields fields') : FieldsMatch R fields fields' :=
  ⟨h.lookup, (Partners.of_forall₂ h).left⟩

theorem putName {name : String} {s t : Schema} (h : FieldsAlike R fields fields')
    (related : R s t) : FieldsAlike R (putName fields name s) (putName fields' name t) := by
  induction h with
  | nil => exact .cons ⟨rfl, related⟩ .nil
  | @cons f g rest rest' head tail ih =>
    rw [Conformance.putName, Conformance.putName, head.1]
    split
    · exact .cons ⟨rfl, related⟩ tail
    · exact .cons head ih

theorem mergeFields (h : FieldsAlike R fields fields') (hm : FieldsAlike R more more') :
    FieldsAlike R (mergeFields fields more) (mergeFields fields' more') := by
  induction hm generalizing fields fields' with
  | nil => exact h
  | @cons f g rest rest' head _ ih =>
    obtain ⟨name, s⟩ := f
    obtain ⟨name', t⟩ := g
    obtain ⟨rfl, related⟩ := head
    exact ih (h.putName related)

end FieldsAlike

/-- **`Layer E R a b`** — two nodes of one kind, where `E` relates what they list and `R` relates
the nodes below.  The number of values matters for a literal only, the order for a tuple only. -/
inductive Layer (E : Value → Value → Prop) (R : Schema → Schema → Prop) :
    Schema → Schema → Prop where
  | bare (i j : Ident) : Layer E R (bare i) (bare j)
  | plain (i j : Ident) (sort : Plain) : Layer E R (plain i sort) (plain j sort)
  | literal (i j : Ident) {values members : List Value} : values.length = members.length →
      Partners E values members → Layer E R (literal i values) (literal j members)
  | enum (i j : Ident) {values members : List Value} : Partners E values members →
      Layer E R (enum i values) (enum j members)
  | wrap (i j : Ident) (w : Wrapper) {x y : Schema} : R x y → Layer E R (wrap i w x) (wrap j w y)
  | array (i j : Ident) {x y : Schema} : R x y → Layer E R (array i x) (array j y)
  | tuple (i j : Ident) {xs ys : List Schema} : List.Forall₂ R xs ys →
      Layer E R (tuple i xs) (tuple j ys)
  | object (i j : Ident) {fields more : List (String × Schema)} : FieldsMatch R fields more →
      Layer E R (object i fields) (object j more)
  | record (i j : Ident) {k v l w : Schema} : R k l → R v w →
      Layer E R (record i k v) (record j l w)
  | union (i j : Ident) {xs ys : List Schema} : Partners R xs ys →
      Layer E R (union i xs) (union j ys)
  | intersection (i j : Ident) {x y z w : Schema} : R x z → R y w →
      Layer E R (intersection i x y) (intersection j z w)
  | custom (i j : Ident) (label : String) (predicate target : Value) :
      Layer E R (custom i label predicate target) (custom j label predicate target)

/-- **`Correspondence E R`** — the relation holds layer by layer, and between the nodes that are
made while related trees are compared. -/
structure Correspondence (E : Value → Value → Prop) (R : Schema → Schema → Prop) : Prop where
  layer : ∀ {x y : Schema}, R x y → Layer E R x y
  probe : ∀ w : Wrapper, R w.probe w.probe
  merged : ∀ {i j k l : Ident} {fields fields' more more' : List (String × Schema)},
    R (.object i fields) (.object j fields') → R (.object k more) (.object l more') →
    R (merged fields more) (merged fields' more')

namespace Layer

variable {E : Value → Value → Prop} {R : Schema → Schema → Prop} {x y : Schema}

theorem within (h : Layer E R x y) : Within E R x y := by
  cases h with
  | bare i j => exact .bare i j
  | plain i j sort => exact .plain i j sort
  | literal i j _ partners => exact .literal i j partners.left
  | enum i j partners => exact .enum i j partners.left
  | wrap i j w inner => exact .wrap i j w inner
  | array i j element => exact .array i j element
  | tuple i j items => exact .tuple i j items
  | object i j => exact .object i j _ _
  | record i j key value => exact .record i j key value
  | union i j partners => exact .union i j partners.left
  | intersection i j left right => exact .intersection i j left right
  | custom i j label predicate target => exact .custom i j label predicate target

theorem within_flip (h : Layer E R x y) : Within (flip E) (flip R) y x := by
  cases h with
  | bare i j => exact .bare j i
  | plain i j sort => exact .plain j i sort
  | literal i j _ partners => exact .literal j i partners.right
  | enum i j partners => exact .enum j i partners.right
  | wrap i j w inner => exact .wrap j i w inner
  | array i j element => exact .array j i element
  | tuple i j items => exact .tuple j i items.flip
  | object i j => exact .object j i _ _
  | record i j key value => exact .record j i key value
  | union i j partners => exact .union j i partners.right
  | intersection i j left right => exact .intersection j i left right
  | custom i j label predicate target => exact .custom j i label predicate target

/-- A tree is related to itself layer by layer where the nodes below are. -/
theorem of_self (self : ∀ v, E v v) (below : ∀ c ∈ x.children, R c c) : Layer E R x x := by
  have listed (values : List Value) : Partners E values values :=
    .of_forall₂ (List.forall₂_same.mpr fun v _ => self v)
  cases x with
  | bare i => exact .bare i i
  | plain i sort => exact .plain i i sort
  | literal i values => exact .literal i i rfl (listed values)
  | enum i values => exact .enum i i (listed values)
  | wrap i w inner => exact .wrap i i w (below inner (List.mem_singleton_self _))
  | array i element => exact .array i i (below element (List.mem_singleton_self _))
  | tuple i items => exact .tuple i i (List.forall₂_same.mpr below)
  | object i fields =>
    have alike : FieldsAlike R fields fields := .of_types rfl (List.forall₂_same.mpr below)
    exact .object i i alike.fieldsMatch
  | record i key value =>
    exact .record i i (below key List.mem_cons_self)
      (below value (List.mem_cons_of_mem _ List.mem_cons_self))
  | union i options => exact .union i i (.of_forall₂ (List.forall₂_same.mpr below))
  | intersection i left right =>
    exact .intersection i i (below left List.mem_cons_self)
      (below right (List.mem_cons_of_mem _ List.mem_cons_self))
  | custom i label predicate target => exact .custom i i label predicate target

theorem options (h : Layer E R x y) : Partners R x.options y.options :=
  ⟨h.within.options, h.within_flip.options⟩

theorem listed (h : Layer E R x y) : Partners E x.listed y.listed :=
  ⟨h.within.listed, h.within_flip.listed⟩

theorem length_listed_eq (h : Layer E R x y) (literal : y.kind? = some .literal) :
    x.listed.length = y.listed.length := by
  cases h with
  | literal i j length _ => exact length
  | enum i j => cases literal
  | _ => rfl

theorem fieldsMatch {i j : Ident} {fields more : List (String × Schema)}
    (h : Layer E R (.object i fields) (.object j more)) : FieldsMatch R fields more := by
  cases h with
  | object _ _ fields => exact fields

end Layer

/-! ## Corresponding pairs -/

variable {E : Value → Value → Prop} {R S : Schema → Schema → Prop}

theorem Correspondence.narrowing (hR : Correspondence E R) : Narrowing E R where
  within h := (hR.layer h).within
  listed h := (hR.layer h).listed.ne_nil
  single h literal one := ((hR.layer h).length_listed_eq literal).trans one
  options h := (hR.layer h).options.ne_nil
  lookup h := (hR.layer h).fieldsMatch.lookup
  probe := hR.probe
  merged := hR.merged

theorem Correspondence.widening (hS : Correspondence E S) : Widening E S where
  within h := (hS.layer h).within_flip
  partner h := (hS.layer h).fieldsMatch.partner

/-- **The comparison cannot tell corresponding pairs apart**, with however many levels, except by
finding one node where there were two. -/
theorem assignable_of_corresponds (hE : HoldAlike E) (hR : Correspondence E R)
    (hS : Correspondence E S)
    (one : ∀ {x x' y y'}, R x x' → S y y' → x'.id.same y'.id = true → x.id.same y.id = true)
    {n : Nat} {x x' y y' : Schema} (hx : R x x') (hy : S y y') (h : Assignable n x' y') :
    Assignable n x y :=
  assignable_of_subsumed hE hR.narrowing hS.widening one hx hy h

end Schema

end Conformance
