/-
# Conformance.Proofs.Reflexivity — a descriptor and its copies.

A node conforms to itself because it is one node.  A copy (`Schema.IsCopy`) has the same kinds,
names and stored values at nodes of its own, so that identity is of no help: each kind has to find
itself again through the rules.  `Regular` is a class of descriptors for which it does
(`fits_of_isCopy`).

The one step that is not a rule for a pair of equal kinds is that of an option into the copy of its
union (`fits_union_of_isCopy`): a literal gets there value by value, `undefined` by its own rule, an
array among the arrays, and the other options one by one.
-/
import Conformance.Proofs.Correspondence
import Conformance.Proofs.Limits
import Conformance.Proofs.Listed

namespace Conformance

/-! ## Copies of values -/

namespace Value

/-- **`IsCopy v w`** — the second value holds what the first does.  Of the values that are listed,
doubles and instances have an identity of their own. -/
inductive IsCopy : Value → Value → Prop where
  | same (v : Value) : IsCopy v v
  | float (i j : Ident) (x : Binary64) : IsCopy (.float i x) (.float j x)
  | object (i j : Ident) (c : ClassRef) : IsCopy (.object i c) (.object j c)

namespace IsCopy

variable {v w : Value}

theorem essence_eq (signed : Bool) (h : IsCopy v w) : v.essence signed = w.essence signed := by
  cases h with
  | same => rfl
  | float => rfl
  | object i j c =>
    -- What an instance holds is fixed by its class.
    cases layout : c.layout <;>
      simp [essence, numeric?, text?, hasMinus, datum, layout, zeroOf, mark]

theorem mayList (h : IsCopy v w) (hv : v.MayList) : w.MayList := by
  cases h with
  | same => exact hv
  | float => exact ⟨rfl, trivial⟩
  | object i j c =>
    refine ⟨?_, hv.2⟩
    have literal := hv.1
    cases layout : c.layout <;> simp_all [isLiteral, datum, zeroOf]

theorem sameValue (signed : Bool) (h : IsCopy v w) (hv : v.MayList) :
    v.sameValue signed w = true ∧ w.sameValue signed v = true := by
  have one := h.essence_eq signed
  have hw := h.mayList hv
  exact ⟨sameValue_of_essence_eq hv hw one, sameValue_of_essence_eq hw hv one.symm⟩

theorem isUndefined_eq (h : IsCopy v w) : v.isUndefined = w.isUndefined := by
  cases h <;> rfl

end IsCopy

/-- Every value is among its copies. -/
theorem allAmong_of_isCopy (signed : Bool) {values members : List Value}
    (may : ∀ v ∈ values, v.MayList) (h : List.Forall₂ IsCopy values members) :
    allAmong signed members values = true := by
  refine List.all_eq_true.mpr fun v hv => ?_
  obtain ⟨w, hw, copy⟩ := (Partners.of_forall₂ h).left v hv
  exact List.any_eq_true.mpr ⟨w, hw, (copy.sameValue signed (may v hv)).1⟩

end Value

/-! ## Copies of descriptors -/

namespace Schema

/-- **`IsCopy a b`** — the second tree is a copy of the first, node by node: same kinds, same field
names and same stored values.  Nothing is said about identities. -/
inductive IsCopy : Schema → Schema → Prop where
  | bare (i j : Ident) : IsCopy (.bare i) (.bare j)
  | plain (i j : Ident) (sort : Plain) : IsCopy (.plain i sort) (.plain j sort)
  | literal (i j : Ident) {values members : List Value} :
      List.Forall₂ Value.IsCopy values members → IsCopy (.literal i values) (.literal j members)
  | enum (i j : Ident) {values members : List Value} :
      List.Forall₂ Value.IsCopy values members → IsCopy (.enum i values) (.enum j members)
  | wrap (i j : Ident) (w : Wrapper) {x y : Schema} :
      IsCopy x y → IsCopy (.wrap i w x) (.wrap j w y)
  | array (i j : Ident) {x y : Schema} : IsCopy x y → IsCopy (.array i x) (.array j y)
  | tuple (i j : Ident) {xs ys : List Schema} :
      List.Forall₂ IsCopy xs ys → IsCopy (.tuple i xs) (.tuple j ys)
  | object (i j : Ident) {fields more : List (String × Schema)} :
      fields.map Prod.fst = more.map Prod.fst →
      List.Forall₂ IsCopy (fields.map Prod.snd) (more.map Prod.snd) →
      IsCopy (.object i fields) (.object j more)
  | record (i j : Ident) {k l x y : Schema} :
      IsCopy k l → IsCopy x y → IsCopy (.record i k x) (.record j l y)
  | union (i j : Ident) {xs ys : List Schema} :
      List.Forall₂ IsCopy xs ys → IsCopy (.union i xs) (.union j ys)
  | intersection (i j : Ident) {k l x y : Schema} :
      IsCopy k l → IsCopy x y → IsCopy (.intersection i k x) (.intersection j l y)
  | custom (i j : Ident) (label : String) (predicate target : Value) :
      IsCopy (.custom i label predicate target) (.custom j label predicate target)

namespace IsCopy

variable {a b : Schema}

theorem kind?_eq (h : IsCopy a b) : a.kind? = b.kind? := by
  cases h <;> rfl

theorem omits_eq (h : IsCopy a b) : a.omits = b.omits := by
  cases h with
  | literal i j copies =>
    exact (Partners.of_forall₂ copies).any_eq fun _ _ copy => copy.isUndefined_eq
  | plain i j sort => cases sort <;> rfl
  | _ => rfl

/-- A field may be left out exactly when its copy may. -/
theorem omittable_eq (h : IsCopy a b) : a.omittable = b.omittable := by
  cases h with
  | union i j copies => exact (Partners.of_forall₂ copies).any_eq fun _ _ copy => copy.omits_eq
  | wrap i j w => cases w <;> rfl
  | _ => rfl

theorem present (h : IsCopy a b) : IsCopy a.present b.present := by
  cases h with
  | wrap i j w inner =>
    cases w with
    | optional => exact inner
    | nullable => exact .wrap i j .nullable inner
  | bare i j => exact .bare i j
  | plain i j sort => exact .plain i j sort
  | literal i j copies => exact .literal i j copies
  | enum i j copies => exact .enum i j copies
  | array i j copy => exact .array i j copy
  | tuple i j copies => exact .tuple i j copies
  | object i j names copies => exact .object i j names copies
  | record i j key val => exact .record i j key val
  | union i j copies => exact .union i j copies
  | intersection i j left right => exact .intersection i j left right
  | custom i j label predicate target => exact .custom i j label predicate target

theorem children (h : IsCopy a b) :
    List.Forall₂ IsCopy a.children b.children := by
  cases h with
  | wrap i j w copy => exact .cons copy .nil
  | array i j copy => exact .cons copy .nil
  | tuple i j copies => exact copies
  | object i j names copies => exact copies
  | record i j key val => exact .cons key (.cons val .nil)
  | union i j copies => exact copies
  | intersection i j left right => exact .cons left (.cons right .nil)
  | _ => exact .nil

/-- A copy offers unions exactly where the original does. -/
theorem offersFlat (h : IsCopy a b) (flat : Everywhere OffersFlat a) :
    Everywhere OffersFlat b := by
  induction flat generalizing b with
  | @intro a flat _ ih =>
    refine .intro ?_ fun c hc => ?_
    · cases h with
      | union i j copies =>
        intro o ho
        obtain ⟨p, hp, copy⟩ := (Partners.of_forall₂ copies).right o ho
        rw [← copy.kind?_eq]
        exact flat p hp
      | _ => trivial
    · obtain ⟨d, hd, copy⟩ := (Partners.of_forall₂ h.children).right c hc
      exact ih d hd copy

/-- A field of a copy has the name of a field of the original and is a copy of it. -/
theorem exists_field {fields more : List (String × Schema)} {g : String × Schema}
    (names : fields.map Prod.fst = more.map Prod.fst)
    (copies : List.Forall₂ IsCopy (fields.map Prod.snd) (more.map Prod.snd)) (hg : g ∈ more) :
    ∃ f ∈ fields, f.1 = g.1 ∧ IsCopy f.2 g.2 :=
  (Partners.of_forall₂ (FieldsAlike.of_types names copies)).right g hg

end IsCopy

/-! ## Regular descriptors -/

/-- **`Regular`** — the descriptors that find themselves again in their copies.  A field may be
wrapped as optional: what counts is its type once it is present.  An option of a union is neither
`unknown` nor an enumeration nor a union. -/
inductive Regular : Schema → Prop where
  | plain (i : Ident) {sort : Plain} : sort ≠ .null → Regular (.plain i sort)
  | literal (i : Ident) (values : List Value) : Regular (.literal i values)
  | enum (i : Ident) (values : List Value) : Regular (.enum i values)
  | array (i : Ident) {element : Schema} : Regular element → Regular (.array i element)
  | tuple (i : Ident) {items : List Schema} : (∀ s ∈ items, Regular s) → Regular (.tuple i items)
  | object (i : Ident) {fields : List (String × Schema)} :
      (∀ f ∈ fields, Regular f.2.present) → Regular (.object i fields)
  | record (i : Ident) {key val : Schema} : Regular key → Regular val → Regular (.record i key val)
  | union (i : Ident) {options : List Schema} : (∀ o ∈ options, Regular o) →
      (∀ o ∈ options, o.kind? ≠ some .unknown ∧ o.kind? ≠ some .enum ∧ o.kind? ≠ some .union) →
      Regular (.union i options)

variable {a b o p : Schema}

theorem Regular.offersFlat (h : Regular a) : Everywhere OffersFlat a := by
  induction h with
  | object i _ ih =>
    refine everywhere_object.mpr ⟨trivial, fun f hf => ?_⟩
    have inside := ih f hf
    -- A wrapper is no union.
    cases field : f.2 with
    | wrap j w inner =>
      rw [field] at inside
      refine everywhere_wrap.mpr ⟨trivial, ?_⟩
      cases w with
      | optional => exact inside
      | nullable => exact (everywhere_wrap.mp inside).2
    | _ =>
      rw [field] at inside
      exact inside
  | union i _ kinds ih => exact everywhere_union.mpr ⟨fun o ho => (kinds o ho).2.2, ih⟩
  | array i _ ih => exact everywhere_array.mpr ⟨trivial, ih⟩
  | tuple i _ ih => exact everywhere_tuple.mpr ⟨trivial, ih⟩
  | record i _ _ key val => exact everywhere_record.mpr ⟨trivial, key, val⟩
  | plain i _ => exact everywhere_plain.mpr trivial
  | literal i values => exact everywhere_literal.mpr trivial
  | enum i values => exact everywhere_enum.mpr trivial

theorem fits_plain_copy {sort : Plain} (notNull : sort ≠ .null) (i j : Ident) :
    Fits (plain i sort) (plain j sort) := by
  cases sort with
  | string | number | boolean | bigint | symbol => exact fits_of_accepts .primitivePair rfl rfl
  | undefined => exact fits_of_accepts .undefinedSource rfl rfl
  | any | unknown => exact fits_of_isTop rfl
  | never => exact fits_of_isBottom rfl
  | null => exact absurd rfl notNull

/-- The fields of an object, found again by name. -/
theorem fieldFits_copy {fields more : List (String × Schema)} {g : String × Schema}
    (distinct : (fields.map Prod.fst).Nodup) (names : fields.map Prod.fst = more.map Prod.fst)
    (copies : List.Forall₂ IsCopy (fields.map Prod.snd) (more.map Prod.snd)) (hg : g ∈ more)
    (fits : ∀ f ∈ fields, IsCopy f.2 g.2 → Fits f.2.present g.2.present) :
    Rule.FieldFits Fits fields g := by
  obtain ⟨f, hf, name, copy⟩ := IsCopy.exists_field names copies hg
  rw [Rule.FieldFits, ← name, lookup_of_mem distinct hf]
  refine ⟨?_, fits f hf copy⟩
  -- Both may be left out, or neither.
  rw [copy.omittable_eq]
  cases g.2.omittable with
  | true => exact .inl rfl
  | false => exact .inr rfl

/-- **An option finds its way into a copy of its union.** -/
theorem fits_union_of_isCopy {j : Ident} {options : List Schema} (regular : Regular o)
    (sound : o.PartsSound) (kinds : o.kind? ≠ some .unknown ∧ o.kind? ≠ some .enum ∧
      o.kind? ≠ some .union) (copy : o.IsCopy p) (hp : p ∈ options) (fits : Fits o p) :
    Fits o (union j options) := by
  obtain ⟨notUnknown, notEnum, notUnion⟩ := kinds
  cases regular with
  | @plain i sort notNull =>
    cases sort with
    | any | never => exact fits_of_isBottom rfl
    | undefined =>
      refine fits_of_accepts .undefinedSource rfl (List.any_eq_true.mpr ⟨p, hp, ?_⟩)
      rw [← copy.kind?_eq]
      rfl
    | string | number | boolean | bigint | symbol =>
      exact fits_of_accepts .unionTarget rfl ⟨p, hp, fits⟩
    | unknown => exact absurd rfl notUnknown
    | null => exact absurd rfl notNull
  | literal i values =>
    cases copy with
    | literal _ k copies =>
      -- A literal is not compared with its copy: each value is looked for in all the options.
      refine fits_of_accepts .literalSource rfl ⟨sound.1, List.all_eq_true.mpr fun v hv => ?_⟩
      obtain ⟨w, hw, copyV⟩ := (Partners.of_forall₂ copies).left v hv
      refine List.any_eq_true.mpr ⟨_, hp, List.any_eq_true.mpr ⟨w, hw, ?_⟩⟩
      exact (copyV.sameValue true (sound.2 v hv)).2
  | array i element =>
    exact fits_of_accepts .arrayToUnion rfl ⟨p, hp, copy.kind?_eq.symm, fits⟩
  | tuple | object | record => exact fits_of_accepts .unionTarget rfl ⟨p, hp, fits⟩
  | enum => exact absurd rfl notEnum
  | union => exact absurd rfl notUnion

/-- **A regular descriptor conforms to its copies**, whatever nodes they share with it. -/
theorem fits_of_isCopy (regular : Regular a) (sound : Everywhere PartsSound a) (copy : a.IsCopy b) :
    Fits a b := by
  -- By induction on the descriptor; the copy is taken apart along with it.
  induction regular generalizing b with
  | @plain i sort notNull =>
    cases copy with
    | plain _ j => exact fits_plain_copy notNull i j
  | literal i values =>
    cases copy with
    | literal _ j copies =>
      obtain ⟨nonempty, may⟩ := sound.here
      exact fits_of_accepts .literalSource rfl ⟨nonempty, Value.allAmong_of_isCopy true may copies⟩
  | enum i values =>
    cases copy with
    | enum _ j copies =>
      obtain ⟨nonempty, may⟩ := sound.here
      refine fits_of_accepts .enumSource rfl ⟨nonempty, ?_⟩
      exact Value.allAmong_of_isCopy false (fun v hv => (may v hv).mayList) copies
  | array i _ ih =>
    cases copy with
    | array _ j copy =>
      exact fits_of_accepts .arrayPair rfl (ih (everywhere_array.mp sound).2 copy)
  | tuple i _ ih =>
    cases copy with
    | tuple _ j copies =>
      obtain ⟨-, sound⟩ := everywhere_tuple.mp sound
      refine fits_of_accepts .tuplePair rfl ?_
      exact Rule.forall₂_imp_of_mem (fun x hx y _ copy => ih x hx (sound x hx) copy) copies
  | object i _ ih =>
    cases copy with
    | object _ j names copies =>
      obtain ⟨distinct, sound⟩ := everywhere_object.mp sound
      refine fits_of_accepts .objectPair rfl fun g hg => ?_
      refine fieldFits_copy distinct names copies hg fun f hf copy => ?_
      exact ih f hf (sound f hf).present copy.present
  | record i _ _ ihKey ihVal =>
    cases copy with
    | record _ j key val =>
      obtain ⟨-, soundKey, soundVal⟩ := everywhere_record.mp sound
      exact fits_of_accepts .recordPair rfl ⟨ihKey soundKey key, ihVal soundVal val⟩
  | union i regular kinds ih =>
    cases copy with
    | union _ j copies =>
      obtain ⟨nonempty, sound⟩ := everywhere_union.mp sound
      refine fits_of_accepts .unionSource rfl ⟨nonempty, fun o ho => ?_⟩
      obtain ⟨p, hp, copy⟩ := (Partners.of_forall₂ copies).left o ho
      exact fits_union_of_isCopy (regular o ho) (sound o ho).here (kinds o ho) copy hp
        (ih o ho (sound o ho) copy)

end Schema

namespace Policy

open Schema

variable {a b : Schema}

/-- **A regular descriptor conforms to its copies**, unless the comparison is given up for lack of
room, which does not happen to trees that are not too high. -/
theorem conforms_copy (stack : Stack) (deepest : Int) (trace : Bool) (regular : Regular a)
    (sound : a.WellFormed) (copy : a.IsCopy b) (deep : (a.height + b.height : Int) ≤ deepest) :
    (4 * (a.height + b.height + 1) + stack.most ≤ stack.whole →
        ¬ (upTo stack deepest trace).Overflows a.value b.value) ∧
      (((upTo stack deepest trace).conforms a.value b.value).outcome = .ok true ↔
        ¬ (upTo stack deepest trace).Overflows a.value b.value) := by
  have fits : Fits a b := fits_of_isCopy regular (sound.mono fun _ h => h.2) copy
  have flat := regular.offersFlat
  refine ⟨not_overflows_of_flat_bound sound flat (copy.offersFlat flat), ?_⟩
  rw [conforms_eq_true_iff deep, and_iff_right fits]

/-- A union that lists "not a number", the negative zero and the undefined value, under a field that
may be left out. -/
theorem optional_field_conforms_to_copy :
    let nan : Binary64 := ⟨0x7FF8000000000000⟩
    let minusZero : Binary64 := ⟨0x8000000000000000⟩
    let shape (n : Nat) : Schema :=
      .object (.made n) [("k", .wrap (.made (n + 1)) .optional (.union (.made (n + 2))
        [.literal (.made (n + 3)) [.float (.made (n + 4)) nan, .float (.made (n + 5)) minusZero,
            .undefined],
          .plain (.made (n + 6)) .undefined,
          .array (.made (n + 7)) (.enum (.made (n + 8)) [.text "x", .int 1])]))]
    ((upTo .standard 8 false).conforms (shape 0).value (shape 10).value).outcome = .ok true := by
  intro nan minusZero shape
  have copies := conforms_copy (a := shape 0) (b := shape 10) .standard 8 false ?_ ?_ ?_ (by decide)
  · exact copies.2.mpr (copies.1 (by decide))
  · refine .object _ (List.forall_mem_singleton.mpr (.union _ ?_ ?_))
    · simp only [List.forall_mem_cons]
      exact ⟨.literal _ _, .plain _ nofun, .array _ (.enum _ _), nofun⟩
    · simp [kind?, Plain.kind]
  · simp [WellFormed, shape, IsSound, PartsSound, Schema.id, Value.MayList, Value.isLiteral,
      Value.MayEnumerate, Value.isEnumerable, Value.isText, Value.text?, Value.isNumber,
      Value.double?, Value.datum, Value.HasClass]
  · refine .object _ _ rfl (.cons (.wrap _ _ _ (.union _ _ ?_)) .nil)
    refine .cons (.literal _ _ ?_) (.cons (.plain _ _ _) (.cons (.array _ _ (.enum _ _ ?_)) .nil))
    · exact .cons (.float _ _ _) (.cons (.float _ _ _) (.cons (.same _) .nil))
    · exact .cons (.same _) (.cons (.same _) .nil)

end Policy

/-! ## Copies that are given up -/

namespace Schema

/-- No node of one tree is a node of the other. -/
def Apart (a b : Schema) : Prop :=
  Everywhere (fun s => Everywhere (fun t => s.id.same t.id = false) b) a

theorem tuples_regular (stride first n : Nat) : Regular (tuples stride first n) := by
  induction n with
  | zero => exact .plain _ nofun
  | succ n ih => exact .tuple _ (List.forall_mem_singleton.mpr ih)

theorem tuples_isCopy {stride stride' first first' : Nat} (n : Nat) :
    (tuples stride first n).IsCopy (tuples stride' first' n) := by
  induction n with
  | zero => exact .plain _ _ _
  | succ n ih => exact .tuple _ _ (.cons ih .nil)

/-- The identities of tuples lie in one class of remainders. -/
theorem tuples_ids (stride first n : Nat) :
    Everywhere (fun s => ∃ k, s.id = .made (stride * k + first)) (tuples stride first n) := by
  refine everywhere_tower ?_ (fun n s _ hs => ?_) n
  · exact everywhere_plain.mpr ⟨0, by simp [Schema.id]⟩
  · exact everywhere_tuple.mpr ⟨⟨n + 1, rfl⟩, List.forall_mem_singleton.mpr hs⟩

theorem tuples_apart (n : Nat) : Apart (tuples 2 0 n) (tuples 2 1 n) := by
  refine (tuples_ids 2 0 n).mono fun s hs => (tuples_ids 2 1 n).mono fun t ht => ?_
  obtain ⟨k, hs⟩ := hs
  obtain ⟨l, ht⟩ := ht
  have differ : 2 * k + 0 ≠ 2 * l + 1 := by omega
  rw [hs, ht]
  exact beq_eq_false_iff_ne.mpr differ

end Schema

namespace Policy

open Schema

/-- **A copy that goes down too far.**  A regular descriptor and a copy of it at nodes of its own,
with no depth limit in the way; the answer is no, because two thousand pairs cannot be compared
inside each other. -/
theorem deep_copy_given_up :
    Regular (tuples 2 0 2000) ∧ (tuples 2 0 2000).WellFormed ∧ (tuples 2 1 2000).WellFormed ∧
      (tuples 2 0 2000).IsCopy (tuples 2 1 2000) ∧ Apart (tuples 2 0 2000) (tuples 2 1 2000) ∧
      ((tuples 2 0 2000).height + (tuples 2 1 2000).height : Int) ≤ 100000 ∧
      ((upTo .standard 100000 false).conforms (tuples 2 0 2000).value (tuples 2 1 2000).value).outcome =
        .ok false := by
  refine ⟨tuples_regular 2 0 _, tuples_wellFormed 2 0 _, tuples_wellFormed 2 1 _, tuples_isCopy _,
    tuples_apart _, ?_, ?_⟩
  · rw [tuples_height, tuples_height]
    decide
  · exact conforms_outcome_of_overflows
      (overflows_of_descends (tuples_descend 2000) (by decide) (by decide))

end Policy

end Conformance
