/-
# Conformance.Proofs.Subsumption — narrower sources and wider targets.

Every rule asks that what a source may be is found in the target, so a source that may be less and a
target that may be more cannot make it refuse.  `Within` says of one layer of two nodes what "less"
is: the same kind, no other listed values, no other options, and parts that are related again.  A
relation that holds layer by layer in this sense is a `Narrowing` of sources or, the other way
round, a `Widening` of targets; either has to know a little more about the side it is for.

Whatever the comparison accepts of a pair, it accepts of a narrower source and a wider target, with
as many levels (`assignable_of_subsumed`).  Identity is the one thing to look after: what was one
node has to stay one node.
-/
import Conformance.Proofs.Fits

namespace Conformance

/-- **`HoldAlike E`** — values that `E` relates hold the same, in whatever way a rule looks at
them. -/
structure HoldAlike (E : Value → Value → Prop) : Prop where
  sameValue_eq : ∀ {v v' w w' : Value} (signed : Bool), E v v' → E w w' →
    v.sameValue signed w = v'.sameValue signed w'
  inPrimitive_eq : ∀ {v v' : Value} (kind : Option Kind), E v v' →
    v.inPrimitive kind = v'.inPrimitive kind
  isNumber_eq : ∀ {v v' : Value}, E v v' → v.isNumber = v'.isNumber
  isUndefined_eq : ∀ {v v' : Value}, E v v' → v.isUndefined = v'.isUndefined

theorem HoldAlike.isText_eq {E : Value → Value → Prop} (hE : HoldAlike E) {v v' : Value}
    (h : E v v') : v.isText = v'.isText :=
  hE.inPrimitive_eq (some .string) h

namespace Schema

/-! ## Layers -/

/-- **`Within E R x y`** — two nodes of one kind, the first of which lists no value and has no
option without a related one in the second.  Wrapped nodes, elements, items, parts of a record and
sides are related one by one.  Nothing is said of fields. -/
inductive Within (E : Value → Value → Prop) (R : Schema → Schema → Prop) :
    Schema → Schema → Prop where
  | bare (i j : Ident) : Within E R (bare i) (bare j)
  | plain (i j : Ident) (sort : Plain) : Within E R (plain i sort) (plain j sort)
  | literal (i j : Ident) {values members : List Value} : (∀ v ∈ values, ∃ w ∈ members, E v w) →
      Within E R (literal i values) (literal j members)
  | enum (i j : Ident) {values members : List Value} : (∀ v ∈ values, ∃ w ∈ members, E v w) →
      Within E R (enum i values) (enum j members)
  | wrap (i j : Ident) (w : Wrapper) {x y : Schema} : R x y → Within E R (wrap i w x) (wrap j w y)
  | array (i j : Ident) {x y : Schema} : R x y → Within E R (array i x) (array j y)
  | tuple (i j : Ident) {xs ys : List Schema} : List.Forall₂ R xs ys →
      Within E R (tuple i xs) (tuple j ys)
  | object (i j : Ident) (fields more : List (String × Schema)) :
      Within E R (object i fields) (object j more)
  | record (i j : Ident) {k v l w : Schema} : R k l → R v w →
      Within E R (record i k v) (record j l w)
  | union (i j : Ident) {xs ys : List Schema} : (∀ x ∈ xs, ∃ y ∈ ys, R x y) →
      Within E R (union i xs) (union j ys)
  | intersection (i j : Ident) {x y z w : Schema} : R x z → R y w →
      Within E R (intersection i x y) (intersection j z w)
  | custom (i j : Ident) (label : String) (predicate target : Value) :
      Within E R (custom i label predicate target) (custom j label predicate target)

namespace Within

variable {E : Value → Value → Prop} {R : Schema → Schema → Prop} {x y : Schema}

theorem kind?_eq (h : Within E R x y) : x.kind? = y.kind? := by
  cases h <;> rfl

theorem inside? (h : Within E R x y) (w : Wrapper) :
    Option.Rel R (x.inside? w) (y.inside? w) := by
  cases h with
  | wrap i j v inner =>
    show Option.Rel R (if v = w then some _ else none) (if v = w then some _ else none)
    by_cases same : v = w
    · rw [if_pos same, if_pos same]
      exact .some inner
    · rw [if_neg same, if_neg same]
      exact .none
  | _ => exact .none

theorem options (h : Within E R x y) : ∀ o ∈ x.options, ∃ o' ∈ y.options, R o o' := by
  cases h with
  | union i j partners => exact partners
  | _ => exact nofun

theorem listed (h : Within E R x y) : ∀ v ∈ x.listed, ∃ w ∈ y.listed, E v w := by
  cases h with
  | literal i j partners => exact partners
  | enum i j partners => exact partners
  | _ => exact nofun

theorem omits (undefined : ∀ {v w}, E v w → v.isUndefined = w.isUndefined) (h : Within E R x y)
    (omits : x.omits = true) : y.omits = true := by
  cases h with
  | plain i j sort => cases sort <;> exact omits
  | literal i j partners =>
    obtain ⟨v, hv, isUndefined⟩ := List.any_eq_true.mp omits
    obtain ⟨w, hw, alike⟩ := partners v hv
    exact List.any_eq_true.mpr ⟨w, hw, undefined alike ▸ isUndefined⟩
  | _ => exact omits

/-- A field that may be left out may still be left out if it may be more. -/
theorem omittable (undefined : ∀ {v w}, E v w → v.isUndefined = w.isUndefined)
    (layer : ∀ {x y}, R x y → Within E R x y) (h : R x y) (omittable : x.omittable = true) :
    y.omittable = true := by
  cases layer h with
  | wrap i j w inner => cases w <;> exact omittable
  | union i j partners =>
    obtain ⟨o, ho, omits⟩ := List.any_eq_true.mp omittable
    obtain ⟨o', ho', below⟩ := partners o ho
    exact List.any_eq_true.mpr ⟨o', ho', (layer below).omits undefined omits⟩
  | _ => exact omittable

theorem present (layer : ∀ {x y}, R x y → Within E R x y) (h : R x y) : R x.present y.present := by
  have here := layer h
  cases here with
  | wrap i j w inner =>
    cases w with
    | optional => exact inner
    | nullable => exact h
  | _ => exact h

end Within

/-! ## Sources and targets -/

/-- **`Narrowing E R`** — a relation between sources, the first of which may be less than the
second.  It is kept by what is made while sources are compared, and a source that lists something
or has options keeps at least one.  A single value of a literal stays single. -/
structure Narrowing (E : Value → Value → Prop) (R : Schema → Schema → Prop) : Prop where
  within : ∀ {x x' : Schema}, R x x' → Within E R x x'
  listed : ∀ {x x' : Schema}, R x x' → x'.listed ≠ [] → x.listed ≠ []
  single : ∀ {x x' : Schema}, R x x' → x'.kind? = some .literal → x'.listed.length = 1 →
    x.listed.length = 1
  options : ∀ {x x' : Schema}, R x x' → x'.options ≠ [] → x.options ≠ []
  lookup : ∀ {i j : Ident} {fields fields' : List (String × Schema)},
    R (.object i fields) (.object j fields') →
    ∀ name, Option.Rel R (fields.lookup name) (fields'.lookup name)
  probe : ∀ w : Wrapper, R w.probe w.probe
  merged : ∀ {i j k l : Ident} {fields fields' more more' : List (String × Schema)},
    R (.object i fields) (.object j fields') → R (.object k more) (.object l more') →
    R (merged fields more) (merged fields' more')

/-- **`Widening E S`** — a relation between targets, the first of which may be more than the second.
Every field that it asks for was asked for before. -/
structure Widening (E : Value → Value → Prop) (S : Schema → Schema → Prop) : Prop where
  within : ∀ {y y' : Schema}, S y y' → Within (flip E) (flip S) y' y
  partner : ∀ {i j : Ident} {fields fields' : List (String × Schema)},
    S (.object i fields) (.object j fields') →
    ∀ f ∈ fields, ∃ f' ∈ fields', f.1 = f'.1 ∧ S f.2 f'.2

namespace Widening

variable {E : Value → Value → Prop} {S : Schema → Schema → Prop} {y y' : Schema}
  {values values' : List Value}

theorem omittable (hE : HoldAlike E) (hS : Widening E S) (h : S y y')
    (omittable : y'.omittable = true) : y.omittable = true :=
  Within.omittable (R := flip S) (fun alike => (hE.isUndefined_eq alike).symm) hS.within h omittable

theorem present (hS : Widening E S) (h : S y y') : S y.present y'.present :=
  Within.present (R := flip S) hS.within h

theorem takes (hE : HoldAlike E) (hS : Widening E S) {v v' : Value} (hv : E v v') (h : S y y')
    (takes : y'.takes v' = true) : y.takes v = true := by
  cases hS.within h with
  | literal i j partners =>
    obtain ⟨w', hw', same⟩ := List.any_eq_true.mp takes
    obtain ⟨w, hw, alike⟩ := partners w' hw'
    refine List.any_eq_true.mpr ⟨w, hw, ?_⟩
    rw [hE.sameValue_eq true alike hv]
    exact same
  | plain i j sort =>
    cases sort with
    | string => exact (hE.inPrimitive_eq (some .string) hv).trans takes
    | number => exact (hE.inPrimitive_eq (some .number) hv).trans takes
    | boolean => exact (hE.inPrimitive_eq (some .boolean) hv).trans takes
    | _ => exact takes
  | _ => exact takes

section Values

variable (hE : HoldAlike E) (hv : ∀ v ∈ values, ∃ v' ∈ values', E v v')
include hE hv

omit hE in
theorem all_of_subsumed {f g : Value → Bool} (eq : ∀ {v v'}, E v v' → g v' = true → f v = true)
    (all : values'.all g = true) : values.all f = true := by
  refine List.all_eq_true.mpr fun v hv' => ?_
  obtain ⟨v', mem, alike⟩ := hv v hv'
  exact eq alike (List.all_eq_true.mp all v' mem)

theorem allAmong_of_subsumed {members members' : List Value} (signed : Bool)
    (hm : ∀ m' ∈ members', ∃ m ∈ members, E m m')
    (h : Value.allAmong signed members' values' = true) :
    Value.allAmong signed members values = true := by
  refine all_of_subsumed hv (fun {v v'} alike found => ?_) h
  obtain ⟨m', mem', same⟩ := List.any_eq_true.mp found
  obtain ⟨m, mem, alikeM⟩ := hm m' mem'
  refine List.any_eq_true.mpr ⟨m, mem, ?_⟩
  rw [hE.sameValue_eq signed alike alikeM]
  exact same

/-- The options of a wider target take the values of a narrower source. -/
theorem allTaken_of_subsumed (hS : Widening E S) {xs ys : List Schema}
    (ho : ∀ o' ∈ ys, ∃ o ∈ xs, S o o')
    (h : (values'.all fun v => ys.any fun o => o.takes v) = true) :
    (values.all fun v => xs.any fun o => o.takes v) = true := by
  refine all_of_subsumed hv (fun {v v'} alike found => ?_) h
  obtain ⟨o', mem', takes⟩ := List.any_eq_true.mp found
  obtain ⟨o, mem, below⟩ := ho o' mem'
  exact List.any_eq_true.mpr ⟨o, mem, hS.takes hE alike below takes⟩

theorem literalFits (hS : Widening E S) (h : S y y')
    (single : values'.length = 1 → values.length = 1)
    (fits : Schema.literalFits values' y' = true) : Schema.literalFits values y = true := by
  cases hS.within h with
  | literal i j partners => exact allAmong_of_subsumed hE hv true partners fits
  | enum i j partners => exact allAmong_of_subsumed hE hv true partners fits
  | plain i j sort =>
    obtain ⟨one, all⟩ := Bool.and_eq_true_iff.mp fits
    refine Bool.and_eq_true_iff.mpr ⟨beq_iff_eq.mpr (single (beq_iff_eq.mp one)), ?_⟩
    exact all_of_subsumed hv (fun alike => (hE.inPrimitive_eq _ alike).trans) all
  | union i j partners => exact allTaken_of_subsumed hE hv hS partners fits
  | _ => exact fits

theorem enumFits (hS : Widening E S) (h : S y y') (fits : Schema.enumFits values' y' = true) :
    Schema.enumFits values y = true := by
  cases hS.within h with
  | enum i j partners => exact allAmong_of_subsumed hE hv false partners fits
  | plain i j sort =>
    cases sort with
    | string => exact all_of_subsumed hv (fun alike => (hE.isText_eq alike).trans) fits
    | number => exact all_of_subsumed hv (fun alike => (hE.isNumber_eq alike).trans) fits
    | _ => exact fits
  | union i j partners => exact allTaken_of_subsumed hE hv hS partners fits
  | _ => exact fits

end Values

theorem undefinedFits (hS : Widening E S) (h : S y y') (option : Kind)
    (fits : y'.undefinedFits option = true) : y.undefinedFits option = true := by
  cases hS.within h with
  | union i j partners =>
    obtain ⟨o', mem', kind⟩ := List.any_eq_true.mp fits
    obtain ⟨o, mem, below⟩ := partners o' mem'
    refine List.any_eq_true.mpr ⟨o, mem, ?_⟩
    rw [← (hS.within below).kind?_eq]
    exact kind
  | plain i j sort => cases sort <;> exact fits
  | _ => exact fits

end Widening

end Schema

/-! ## What the rules ask of a narrower source and a wider target -/

namespace Rule

open Schema

variable {E : Value → Value → Prop} {R S P P' : Schema → Schema → Prop} {x x' y y' : Schema}

/-- Whatever holds of a pair one level down holds of the pair that is related to it. -/
def Carries (R S P P' : Schema → Schema → Prop) : Prop :=
  ∀ ⦃x x' y y' : Schema⦄, R x x' → S y y' → P' x' y' → P x y

section Rules

variable (hE : HoldAlike E) (hR : Narrowing E R) (hS : Widening E S) (down : Carries R S P P')
  (hx : R x x') (hy : S y y')

include hR hS down hx hy

theorem intoWrapper_of_subsumed {w : Wrapper} (h : IntoWrapper P' w x' y') :
    IntoWrapper P w x y := by
  unfold IntoWrapper at h ⊢
  have inside := (hS.within hy).inside? w
  rw [(hR.within hx).kind?_eq]
  generalize y.inside? w = inner, y'.inside? w = inner' at inside h
  cases inside with
  | none => exact h
  | some below => exact h.imp_right (down hx below)

theorem fromWrapper_of_subsumed {w : Wrapper} (h : FromWrapper P' w x' y') :
    FromWrapper P w x y := by
  unfold FromWrapper at h ⊢
  have insideX := (hR.within hx).inside? w
  have insideY := (hS.within hy).inside? w
  generalize x.inside? w = s, x'.inside? w = s' at insideX h
  generalize y.inside? w = t, y'.inside? w = t' at insideY h
  cases insideX with
  | none => exact h
  | some source =>
    cases insideY with
    | none => exact ⟨down source hy h.1, down (hR.probe w) hy h.2⟩
    | some target => exact down source target h

omit hx hy in
include hE in
theorem fieldFits_of_subsumed {source source' : List (String × Schema)} {f f' : String × Schema}
    (lookup : ∀ name, Option.Rel R (source.lookup name) (source'.lookup name)) (name : f.1 = f'.1)
    (hf : S f.2 f'.2) (h : FieldFits P' source' f') : FieldFits P source f := by
  unfold FieldFits at h ⊢
  have found := lookup f'.1
  rw [name]
  generalize source.lookup f'.1 = s, source'.lookup f'.1 = s' at found h
  cases found with
  | none => exact hS.omittable hE hf h
  | @some s s' below =>
    obtain ⟨omits, fits⟩ := h
    refine ⟨omits.imp (hS.omittable hE hf) fun needed => ?_,
      down (Within.present hR.within below) (hS.present hf) fits⟩
    -- A field that could not be left out before cannot be left out now.
    refine Bool.eq_false_iff.mpr fun omittable => ?_
    rw [Within.omittable (fun alike => hE.isUndefined_eq alike) hR.within below omittable] at needed
    cases needed

omit hR hS hx hy in
theorem forall₂_of_subsumed {xs xs' ys ys' : List Schema} (hx : List.Forall₂ R xs xs')
    (hy : List.Forall₂ (flip S) ys' ys) (h : List.Forall₂ P' xs' ys') : List.Forall₂ P xs ys := by
  induction h generalizing xs ys with
  | nil =>
    cases hx
    cases hy
    exact .nil
  | cons head _ ih =>
    cases hx with
    | cons headX hx =>
      cases hy with
      | cons headY hy => exact .cons (down headX headY head) (ih hx hy)

include hE in
theorem pairFits_of_subsumed (h : PairFits P' x' y') : PairFits P x y := by
  cases hR.within hx with
  | array i j source =>
    cases hS.within hy with
    | array k l target => exact down source target h
    | _ => exact h
  | tuple i j sources =>
    cases hS.within hy with
    | tuple k l targets => exact forall₂_of_subsumed down sources targets h
    | _ => exact h
  | object i j fields fields' =>
    cases hS.within hy with
    | object k l more' more =>
      intro f hf
      obtain ⟨f', hf', name, target⟩ := hS.partner hy f hf
      exact fieldFits_of_subsumed hE hR hS down (hR.lookup hx) name target (h f' hf')
    | _ => exact h
  | record i j keyX valueX =>
    cases hS.within hy with
    | record k l keyY valueY => exact ⟨down keyX keyY h.1, down valueX valueY h.2⟩
    | _ => exact h
  | _ => exact h.elim

omit hS in
theorem fromSides_of_subsumed (h : FromSides P' x' y') : FromSides P x y := by
  cases hR.within hx with
  | intersection i j left right =>
    refine Or.imp ?_ (Or.imp (down left hy) (down right hy)) h
    intro together
    -- Objects are merged on both sides or on neither, since related nodes are of one kind.
    have layerL := hR.within left
    have layerR := hR.within right
    cases layerL with
    | object k l =>
      cases layerR with
      | object m n => exact down (hR.merged left right) hy together
      | _ => exact together
    | _ => exact together
  | _ => exact h

omit hR in
theorem intoSides_of_subsumed (h : IntoSides P' x' y') : IntoSides P x y := by
  cases hS.within hy with
  | intersection i j left right => exact ⟨down hx left h.1, down hx right h.2⟩
  | _ => exact h

include hE in
/-- **What a rule asks of a pair, it finds in a narrower source and a wider target.** -/
theorem accepts_of_subsumed (one : x'.id.same y'.id = true → x.id.same y.id = true) {r : Rule}
    (applies : r.applies (x.id.same y.id) x.kind? y.kind? = true) (h : Accepts P' r x' y') :
    Accepts P r x y := by
  have kindX := (hR.within hx).kind?_eq
  have kindY := (hS.within hy).kind?_eq
  have listed := (hR.within hx).listed
  cases r with
  | identity | customPair => exact one h
  | topBottom =>
    show y.isTop = true ∨ x.isBottom = true
    rw [isTop, isBottom, kindX, ← kindY]
    exact h
  | primitivePair | primitiveFallback =>
    show x.kind? = y.kind?
    rw [kindX, ← kindY]
    exact h
  | optionalTarget | nullableTarget => exact intoWrapper_of_subsumed hR hS down hx hy h
  | optionalSource | nullableSource => exact fromWrapper_of_subsumed hR hS down hx hy h
  | literalSource =>
    -- One listed value is treated differently from several.
    have literal : x'.kind? = some .literal := kindX ▸ beq_iff_eq.mp applies
    exact ⟨hR.listed hx h.1, Widening.literalFits hE listed hS hy (hR.single hx literal) h.2⟩
  | enumSource => exact ⟨hR.listed hx h.1, Widening.enumFits hE listed hS hy h.2⟩
  | undefinedSource | undefinedSourceNullUnion => exact hS.undefinedFits hy _ h
  | arrayPair | tuplePair | objectPair | recordPair =>
    exact pairFits_of_subsumed hE hR hS down hx hy h
  | arrayToUnion =>
    obtain ⟨o', ho', kind, hP⟩ := h
    obtain ⟨o, ho, below⟩ := (hS.within hy).options o' ho'
    exact ⟨o, ho, (hS.within below).kind?_eq.symm.trans kind, down hx below hP⟩
  | unionTarget =>
    obtain ⟨o', ho', hP⟩ := h
    obtain ⟨o, ho, below⟩ := (hS.within hy).options o' ho'
    exact ⟨o, ho, down hx below hP⟩
  | unionSource =>
    refine ⟨hR.options hx h.1, fun o ho => ?_⟩
    obtain ⟨o', ho', below⟩ := (hR.within hx).options o ho
    exact down below hy (h.2 o' ho')
  | intersectionSource => exact fromSides_of_subsumed hR down hx hy h
  | intersectionTarget => exact intoSides_of_subsumed hS down hx hy h
  | unionToArray | otherwise => exact h

end Rules

end Rule

namespace Schema

variable {E : Value → Value → Prop} {R S : Schema → Schema → Prop}

/-- **A narrower source conforms to a wider target**, with as many levels, provided that what was
one node is one node. -/
theorem assignable_of_subsumed (hE : HoldAlike E) (hR : Narrowing E R) (hS : Widening E S)
    (one : ∀ {x x' y y'}, R x x' → S y y' → x'.id.same y'.id = true → x.id.same y.id = true)
    {n : Nat} {x x' y y' : Schema} (hx : R x x') (hy : S y y') (h : Assignable n x' y') :
    Assignable n x y := by
  -- By induction on the levels; what is compared one level down is related again.
  induction n generalizing x x' y y' with
  | zero => exact h
  | succ n ih =>
    show Rule.Accepts (Assignable n) (x.rule y) x y
    cases same : x.id.same y.id with
    | true =>
      rw [rule, same]
      exact same
    | false =>
      -- Then the other pair are two nodes as well, and the same rule decides.
      have apart : x'.id.same y'.id = false := by
        rw [Bool.eq_false_iff]
        intro found
        rw [one hx hy found] at same
        cases same
      have rules : x.rule y = x'.rule y' := by
        rw [rule, rule, same, apart, (hR.within hx).kind?_eq, (hS.within hy).kind?_eq]
      refine Rule.accepts_of_subsumed hE hR hS (fun _ _ _ _ => ih) hx hy (one hx hy)
        (applies_rule x y) ?_
      rw [rules]
      exact h

end Schema

end Conformance
