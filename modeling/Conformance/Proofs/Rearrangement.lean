/-
# Conformance.Proofs.Rearrangement — order and repetition do not matter.

`Schema.Rearranged` relates two trees with the same nodes, where the fields of objects, the options
of unions and the listed values may stand in another order, and where options and the members of
enumerations may be repeated.  Values of a literal may not: one listed value is treated differently
from several.  Such trees correspond to each other in both directions, so the comparison accepts the
same pairs of them (`assignable_iff_of_rearranged`).

A run does notice the order: it decides which options are looked at before the answer is found, and
a comparison that would be given up for lack of room may get its answer first
(`option_order_decides`).
-/
import Conformance.Proofs.Sharing

namespace Conformance

namespace Schema

/-! ## Merged fields by name -/

section Names

variable {α : Type} {fields more : List (String × Schema)} {name : String}

theorem mem_names_iff_lookup : name ∈ fields.map Prod.fst ↔ (fields.lookup name).isSome := by
  rw [Option.isSome_iff_ne_none, Ne, List.lookup_eq_none_iff]
  simp

theorem lookup_cons_eq (f : String × α) (rest : List (String × α)) :
    (f :: rest).lookup name = if name = f.1 then some f.2 else rest.lookup name := by
  rw [List.lookup_cons]
  by_cases h : name = f.1
  · simp [h]
  · rw [if_neg h, beq_eq_false_iff_ne.mpr h]

theorem lookup_putName (known : List (String × α)) (new : String) (s : α) :
    (putName known new s).lookup name = if name = new then some s else known.lookup name := by
  induction known with
  | nil => exact lookup_cons_eq (new, s) []
  | cons g rest ih =>
    rw [putName]
    by_cases here : g.1 = new
    · rw [if_pos here, lookup_cons_eq, lookup_cons_eq, here]
      by_cases h : name = new <;> simp [h]
    · rw [if_neg here, lookup_cons_eq, lookup_cons_eq, ih]
      by_cases h : name = new
      · simp [h, Ne.symm here]
      · simp [h]

/-- Where both have a name, the second wins. -/
theorem lookup_mergeFields (distinct : (more.map Prod.fst).Nodup) :
    (mergeFields fields more).lookup name = (more.lookup name).or (fields.lookup name) := by
  induction more generalizing fields with
  | nil => rfl
  | cons f rest ih =>
    obtain ⟨fresh, distinct⟩ := List.nodup_cons.mp distinct
    have later : (mergeFields fields (f :: rest)).lookup name =
        (rest.lookup name).or ((putName fields f.1 f.2).lookup name) := ih distinct
    rw [later, lookup_putName, lookup_cons_eq]
    by_cases h : name = f.1
    · -- The name does not come up again.
      have last : rest.lookup name = none := by
        rw [h, ← Option.not_isSome_iff_eq_none, ← mem_names_iff_lookup]
        exact fresh
      simp [h, h ▸ last]
    · simp [h]

end Names

/-! ## Rearranged trees -/

/-- **`Rearranged a b`** — the second tree has the nodes of the first; fields, options and listed
values may stand in another order, and options and the members of enumerations may be repeated.  An
object has the same field names, each once, and the type under a name is rearranged; of two unions,
the pairs list the options of both. -/
inductive Rearranged : Schema → Schema → Prop where
  | bare (i : Ident) : Rearranged (.bare i) (.bare i)
  | plain (i : Ident) (sort : Plain) : Rearranged (.plain i sort) (.plain i sort)
  | literal (i : Ident) {values members : List Value} : values.Perm members →
      Rearranged (.literal i values) (.literal i members)
  | enum (i : Ident) {values members : List Value} : (∀ v, v ∈ values ↔ v ∈ members) →
      Rearranged (.enum i values) (.enum i members)
  | wrap (i : Ident) (w : Wrapper) {x y : Schema} : Rearranged x y →
      Rearranged (.wrap i w x) (.wrap i w y)
  | array (i : Ident) {x y : Schema} : Rearranged x y → Rearranged (.array i x) (.array i y)
  | tuple (i : Ident) (pairs : List (Schema × Schema)) : (∀ p ∈ pairs, Rearranged p.1 p.2) →
      Rearranged (.tuple i (pairs.map Prod.fst)) (.tuple i (pairs.map Prod.snd))
  | object (i : Ident) {fields more : List (String × Schema)} :
      (fields.map Prod.fst).Nodup → (more.map Prod.fst).Nodup →
      (∀ name, name ∈ fields.map Prod.fst ↔ name ∈ more.map Prod.fst) →
      (∀ name s t, (name, s) ∈ fields → (name, t) ∈ more → Rearranged s t) →
      Rearranged (.object i fields) (.object i more)
  | record (i : Ident) {k l v w : Schema} : Rearranged k l → Rearranged v w →
      Rearranged (.record i k v) (.record i l w)
  | union (i : Ident) {xs ys : List Schema} (pairs : List (Schema × Schema)) :
      (∀ p ∈ pairs, Rearranged p.1 p.2) → (∀ x, x ∈ xs ↔ x ∈ pairs.map Prod.fst) →
      (∀ y, y ∈ ys ↔ y ∈ pairs.map Prod.snd) → Rearranged (.union i xs) (.union i ys)
  | intersection (i : Ident) {x y z w : Schema} : Rearranged x z → Rearranged y w →
      Rearranged (.intersection i x y) (.intersection i z w)
  | custom (i : Ident) (label : String) (predicate target : Value) :
      Rearranged (.custom i label predicate target) (.custom i label predicate target)

namespace Rearranged

variable {a b : Schema}

theorem symm (h : Rearranged a b) : Rearranged b a := by
  -- The pairs are turned around.
  have turned {pairs : List (Schema × Schema)} (ih : ∀ p ∈ pairs, Rearranged p.2 p.1) :
      ∀ p ∈ pairs.map Prod.swap, Rearranged p.1 p.2 := by
    intro p hp
    obtain ⟨q, hq, rfl⟩ := List.mem_map.mp hp
    exact ih q hq
  have firsts (pairs : List (Schema × Schema)) :
      (pairs.map Prod.swap).map Prod.fst = pairs.map Prod.snd := by simp
  have seconds (pairs : List (Schema × Schema)) :
      (pairs.map Prod.swap).map Prod.snd = pairs.map Prod.fst := by simp
  induction h with
  | bare i => exact .bare i
  | plain i sort => exact .plain i sort
  | literal i perm => exact .literal i perm.symm
  | enum i members => exact .enum i fun v => (members v).symm
  | wrap i w _ ih => exact .wrap i w ih
  | array i _ ih => exact .array i ih
  | tuple i pairs _ ih =>
    have all := Rearranged.tuple i (pairs.map Prod.swap) (turned ih)
    rwa [firsts, seconds] at all
  | object i distinct distinct' names _ ih =>
    exact .object i distinct' distinct (fun name => (names name).symm) fun name s t hs ht =>
      ih name t s ht hs
  | record i _ _ ihK ihV => exact .record i ihK ihV
  | union i pairs _ left right ih =>
    refine .union i (pairs.map Prod.swap) (turned ih) ?_ ?_
    · rw [firsts]
      exact right
    · rw [seconds]
      exact left
  | intersection i _ _ ihL ihR => exact .intersection i ihL ihR
  | custom i label predicate target => exact .custom i label predicate target

theorem id_eq (h : Rearranged a b) : a.id = b.id := by
  cases h <;> rfl

/-- The options of two unions, from the pairs that list them. -/
theorem partners {xs ys : List Schema} {pairs : List (Schema × Schema)}
    (related : ∀ p ∈ pairs, Rearranged p.1 p.2) (left : ∀ x, x ∈ xs ↔ x ∈ pairs.map Prod.fst)
    (right : ∀ y, y ∈ ys ↔ y ∈ pairs.map Prod.snd) : Partners Rearranged xs ys := by
  refine ⟨fun x hx => ?_, fun y hy => ?_⟩
  · obtain ⟨p, hp, rfl⟩ := List.mem_map.mp ((left x).mp hx)
    exact ⟨p.2, (right p.2).mpr (List.mem_map_of_mem hp), related p hp⟩
  · obtain ⟨p, hp, rfl⟩ := List.mem_map.mp ((right y).mp hy)
    exact ⟨p.1, (left p.1).mpr (List.mem_map_of_mem hp), related p hp⟩

theorem forall₂_pairs {pairs : List (Schema × Schema)}
    (related : ∀ p ∈ pairs, Rearranged p.1 p.2) :
    List.Forall₂ Rearranged (pairs.map Prod.fst) (pairs.map Prod.snd) := by
  rw [List.forall₂_map_left_iff, List.forall₂_map_right_iff]
  exact List.forall₂_same.mpr related

theorem fieldsMatch {i j : Ident} {fields more : List (String × Schema)}
    (h : Rearranged (.object i fields) (.object j more)) : FieldsMatch Rearranged fields more := by
  cases h with
  | object _ distinct distinct' names below =>
    refine ⟨fun name => ?_, fun f hf => ?_⟩
    · have known := names name
      rw [mem_names_iff_lookup, mem_names_iff_lookup] at known
      cases found : fields.lookup name with
      | none =>
        cases found' : more.lookup name with
        | none => exact .none
        | some t => simp [found, found'] at known
      | some s =>
        cases found' : more.lookup name with
        | none => simp [found, found'] at known
        | some t => exact .some (below name s t (mem_of_lookup found) (mem_of_lookup found'))
    · obtain ⟨g, hg, same⟩ := List.mem_map.mp ((names f.1).mp (List.mem_map_of_mem hf))
      refine ⟨g, hg, same.symm, below f.1 f.2 g.2 hf ?_⟩
      rw [← same]
      exact hg

theorem merged {i j k l : Ident} {fields fields' more more' : List (String × Schema)}
    (left : Rearranged (.object i fields) (.object j fields'))
    (right : Rearranged (.object k more) (.object l more')) :
    Rearranged (merged fields more) (Schema.merged fields' more') := by
  have matchL := left.fieldsMatch
  have matchR := right.fieldsMatch
  cases left with
  | object _ distinctL distinctL' =>
    cases right with
    | object _ distinctR distinctR' =>
      have found (name : String) : Option.Rel Rearranged ((mergeFields fields more).lookup name)
          ((mergeFields fields' more').lookup name) := by
        rw [lookup_mergeFields distinctR, lookup_mergeFields distinctR']
        have here := matchR.lookup name
        generalize more.lookup name = s, more'.lookup name = t at here
        cases here with
        | none => exact matchL.lookup name
        | some related => exact .some related
      have distinct := nodup_names_mergeFields more distinctL
      have distinct' := nodup_names_mergeFields more' distinctL'
      refine .object _ distinct distinct' (fun name => ?_) fun name s t hs ht => ?_
      · rw [mem_names_iff_lookup, mem_names_iff_lookup]
        have one := found name
        generalize (mergeFields fields more).lookup name = s,
          (mergeFields fields' more').lookup name = t at one
        cases one <;> simp
      · have one := found name
        rw [lookup_of_mem distinct hs, lookup_of_mem distinct' ht] at one
        cases one with
        | some related => exact related

theorem layer (h : Rearranged a b) : Layer Eq Rearranged a b := by
  -- Equal values are their own partners.
  have listed {values members : List Value} (same : ∀ v, v ∈ values ↔ v ∈ members) :
      Partners Eq values members :=
    ⟨fun v hv => ⟨v, (same v).mp hv, rfl⟩, fun v hv => ⟨v, (same v).mpr hv, rfl⟩⟩
  have known := h
  cases h with
  | bare i => exact .bare i i
  | plain i sort => exact .plain i i sort
  | literal i perm => exact .literal i i perm.length_eq (listed fun _ => perm.mem_iff)
  | enum i same => exact .enum i i (listed same)
  | wrap i w inner => exact .wrap i i w inner
  | array i element => exact .array i i element
  | tuple i pairs related => exact .tuple i i (forall₂_pairs related)
  | object i => exact .object i i known.fieldsMatch
  | record i key value => exact .record i i key value
  | union i pairs related left right => exact .union i i (partners related left right)
  | intersection i left right => exact .intersection i i left right
  | custom i label predicate target => exact .custom i i label predicate target

theorem correspondence : Correspondence Eq Rearranged where
  layer := layer
  probe _ := .plain _ _
  merged := merged

theorem children (h : Rearranged a b) {c : Schema} (hc : c ∈ a.children) :
    ∃ d ∈ b.children, Rearranged c d := by
  cases h.layer with
  | wrap i j w inner =>
    rw [Schema.children, List.mem_singleton] at hc
    exact ⟨_, List.mem_singleton_self _, hc ▸ inner⟩
  | array i j element =>
    rw [Schema.children, List.mem_singleton] at hc
    exact ⟨_, List.mem_singleton_self _, hc ▸ element⟩
  | tuple i j items => exact (Partners.of_forall₂ items).left c hc
  | object i j fields =>
    obtain ⟨f, hf, rfl⟩ := List.mem_map.mp hc
    obtain ⟨g, hg, -, related⟩ := fields.partner f hf
    exact ⟨g.2, List.mem_map_of_mem hg, related⟩
  | record i j key value => exact (Partners.of_forall₂ (.cons key (.cons value .nil))).left c hc
  | union i j options => exact options.left c hc
  | intersection i j left right =>
    exact (Partners.of_forall₂ (.cons left (.cons right .nil))).left c hc
  | _ => cases hc

theorem height_le {a b : Schema} (h : Rearranged a b) : a.height ≤ b.height := by
  rw [height_le_iff]
  intro c hc
  obtain ⟨d, hd, below⟩ := h.children hc
  have lower := height_lt_of_mem hc
  calc
    c.height ≤ d.height := below.height_le
    _ < b.height := height_lt_of_mem hd
termination_by a.height

theorem height_eq (h : Rearranged a b) : a.height = b.height :=
  Nat.le_antisymm h.height_le h.symm.height_le

end Rearranged

theorem holdAlike_eq : HoldAlike Eq where
  sameValue_eq := by
    rintro v _ w _ signed rfl rfl
    rfl
  inPrimitive_eq := by
    rintro v _ kind rfl
    rfl
  isNumber_eq := congrArg _
  isUndefined_eq := congrArg _

/-- **The comparison accepts rearranged trees alike**, with however many levels. -/
theorem assignable_iff_of_rearranged {a a' b b' : Schema} (ha : Rearranged a a')
    (hb : Rearranged b b') (n : Nat) : Assignable n a b ↔ Assignable n a' b' := by
  have carried {x x' y y' : Schema} (hx : Rearranged x x') (hy : Rearranged y y')
      (h : Assignable n x' y') : Assignable n x y := by
    refine assignable_of_corresponds holdAlike_eq Rearranged.correspondence
      Rearranged.correspondence (fun hx hy one => ?_) hx hy h
    rw [hx.id_eq, hy.id_eq]
    exact one
  exact ⟨carried ha.symm hb.symm, carried ha hb⟩

end Schema

namespace Policy

open Schema

variable {a a' b b' : Schema}

/-- **Order and repetition do not matter.**  Rearranged trees are compared with the same outcome
under every limit, unless one of the comparisons is given up for lack of room, which does not happen
to built trees that are not too high or under a limit that is not too high. -/
theorem conforms_of_rearranged (stack : Stack) (deepest : Int) (trace : Bool)
    (ha : Rearranged a a') (hb : Rearranged b b') :
    (¬ (upTo stack deepest trace).Overflows a.value b.value →
      ¬ (upTo stack deepest trace).Overflows a'.value b'.value →
      ((upTo stack deepest trace).conforms a.value b.value).outcome =
        ((upTo stack deepest trace).conforms a'.value b'.value).outcome) ∧
    (a.WellFormed → a'.WellFormed →
      5 * (a.height + b.height) + stack.most ≤ stack.whole ∨
          5 * (deepest + 1) + stack.most ≤ stack.whole →
        ¬ (upTo stack deepest trace).Overflows a.value b.value ∧
          ¬ (upTo stack deepest trace).Overflows a'.value b'.value) := by
  refine ⟨conforms_outcome_eq_of_iff (assignable_iff_of_rearranged ha hb _), fun wf wf' bound => ?_⟩
  refine ⟨not_overflows_of_bound wf bound, not_overflows_of_bound wf' ?_⟩
  rw [← ha.height_eq, ← hb.height_eq]
  exact bound

/-- An intersection of two objects that is merged for the comparison, against an object with two
unions; fields, options, values and members are turned around, and some are repeated. -/
theorem rearranged_intersection_conforms :
    let plain (n : Nat) (sort : Plain) : Schema := .plain (.made n) sort
    let letters (values : List Value) : Schema := .literal (.made 3) values
    let digits (values : List Value) : Schema := .enum (.made 5) values
    let pair (n : Nat) (k l : String) (s t : Schema) : Schema := .object (.made n) [(k, s), (l, t)]
    let union (n : Nat) (options : List Schema) : Schema := .union (.made n) options
    let a : Schema := .intersection (.made 0)
      (pair 1 "x" "y" (plain 2 .string) (letters [.text "p", .text "q"]))
      (pair 4 "y" "z" (letters [.text "p", .text "q"]) (digits [.int 1, .int 2]))
    let a' : Schema := .intersection (.made 0)
      (pair 1 "y" "x" (letters [.text "q", .text "p"]) (plain 2 .string))
      (pair 4 "z" "y" (digits [.int 2, .int 1, .int 2]) (letters [.text "q", .text "p"]))
    let b : Schema := pair 6 "y" "z" (union 7 [plain 8 .null, plain 9 .string])
      (union 10 [plain 11 .number, plain 12 .null])
    let b' : Schema := pair 6 "z" "y" (union 10 [plain 12 .null, plain 11 .number, plain 12 .null])
      (union 7 [plain 9 .string, plain 8 .null, plain 9 .string])
    ((upTo .standard 8 true).conforms a.value b.value).outcome = .ok true ∧
      ((upTo .standard 8 true).conforms a'.value b'.value).outcome = .ok true := by
  intro plain letters digits pair union a a' b b'
  have turned (n : Nat) {k l : String} (apart : k ≠ l) {s s' t t' : Schema}
      (hs : Rearranged s s') (ht : Rearranged t t') :
      Rearranged (pair n k l s t) (pair n l k t' s') := by
    refine .object _ (by simp [apart]) (by simp [apart.symm]) (by simp [or_comm]) ?_
    intro name u u' hu hu'
    simp only [List.mem_cons, List.not_mem_nil, or_false, Prod.mk.injEq] at hu hu'
    obtain ⟨rfl, rfl⟩ | ⟨rfl, rfl⟩ := hu
    · obtain ⟨rfl, rfl⟩ | ⟨-, rfl⟩ := hu'
      · exact absurd rfl apart
      · exact hs
    · obtain ⟨-, rfl⟩ | ⟨rfl, rfl⟩ := hu'
      · exact ht
      · exact absurd rfl apart
  have options (n : Nat) (s t : Schema) (hs : Rearranged s s) (ht : Rearranged t t) :
      Rearranged (union n [s, t]) (union n [t, s, t]) := by
    refine .union _ [(s, s), (t, t)] ?_ (by simp) (by simp [or_comm])
    simp [hs, ht]
  have values : Rearranged (letters [.text "p", .text "q"]) (letters [.text "q", .text "p"]) :=
    .literal _ (.swap _ _ _)
  have members : Rearranged (digits [.int 1, .int 2]) (digits [.int 2, .int 1, .int 2]) :=
    .enum _ (by simp [or_comm])
  have answer : ((upTo .standard 8 true).conforms a.value b.value).outcome = .ok true := by decide +kernel
  have source : Rearranged a a' :=
    .intersection _ (turned 1 (by decide) (.plain _ _) values)
      (turned 4 (by decide) values members)
  have target : Rearranged b b' :=
    turned 6 (by decide) (options 7 _ _ (.plain _ _) (.plain _ _))
      (options 10 _ _ (.plain _ _) (.plain _ _))
  have alike := conforms_of_rearranged .standard 8 true source target
  have sound : a.WellFormed := by
    simp [WellFormed, a, pair, letters, digits, plain, IsSound, PartsSound, Schema.id,
      Value.MayList, Value.isLiteral, Value.MayEnumerate, Value.isEnumerable, Value.isText,
      Value.text?, Value.isNumber, Value.double?, Value.datum, Value.HasClass]
  have sound' : a'.WellFormed := by
    simp [WellFormed, a', pair, letters, digits, plain, IsSound, PartsSound, Schema.id,
      Value.MayList, Value.isLiteral, Value.MayEnumerate, Value.isEnumerable, Value.isText,
      Value.text?, Value.isNumber, Value.double?, Value.datum, Value.HasClass]
  obtain ⟨held, held'⟩ := alike.2 sound sound' (.inr (by decide))
  exact ⟨answer, (alike.1 held held').symm.trans answer⟩

end Policy

/-! ## An option that leads too far -/

namespace Schema

/-- A union of everything and a tree, in either order. -/
def withTop (s : Schema) : Bool → Schema
  | true => .union (.made 2) [.plain (.made 5) .unknown, s]
  | false => .union (.made 2) [s, .plain (.made 5) .unknown]

/-- The heap of such a union, where the tree is one of tuples inside each other. -/
def heapWithTop (first : Bool) : Heap where
  node n :=
    if n % 3 < 2 then tuples 3 (n % 3) (n / 3)
    else (Heap.ofNodes [.plain (.made 5) .unknown, withTop (tuples 3 1 2000) first]).node n
  cls _ := .base .object

theorem everywhere_withTop {P : Schema → Prop} {s : Schema} {first : Bool} :
    Everywhere P (withTop s first) ↔
      P (withTop s first) ∧ P (.plain (.made 5) .unknown) ∧ Everywhere P s := by
  cases first <;> simp [withTop, and_comm]

theorem rearranged_withTop {s t : Schema} (h : Rearranged s t) :
    Rearranged (withTop s true) (withTop t false) := by
  have top : Rearranged (.plain (.made 5) .unknown) (.plain (.made 5) .unknown) := .plain _ _
  refine .union _ [(.plain (.made 5) .unknown, .plain (.made 5) .unknown), (s, t)] ?_ ?_ ?_
  · simp [h, top]
  · simp
  · simp [or_comm]

theorem tuples_rearranged (stride first n : Nat) :
    Rearranged (tuples stride first n) (tuples stride first n) := by
  induction n with
  | zero => exact .plain _ _
  | succ n ih =>
    exact .tuple _ [(tuples stride first n, tuples stride first n)] (by simpa using ih)

end Schema

namespace Policy

open Schema

/-- Everything conforms to the first option, and the second is not looked at. -/
theorem conforms_withTop (i : Nat) (s t : Schema) :
    ((upTo .standard 100000 false).conforms (tuple (.made (i + 6)) [s]).value
      (withTop t true).value).outcome = .ok true := by
  rfl

/-- With the options the other way round, a fault of the comparison with the tree is the outcome. -/
theorem check_withTop {n room i : Nat} {deepest depth : Int} {s t : Schema} {e : Fault}
    (space : 5 ≤ room)
    (deep : ((upTo .standard deepest false).check n (room - 5) (depth + 1)
      (tuple (.made (i + 6)) [s]).value t.value).outcome = .error e) :
    ((upTo .standard deepest false).check (n + 1) room depth (tuple (.made (i + 6)) [s]).value
      (withTop t false).value).outcome = .error e := by
  have options : ((upTo .standard deepest false).check (n + 1) room depth
      (tuple (.made (i + 6)) [s]).value (withTop t false).value).outcome =
        ([t.value, (plain (.made 5) .unknown).value].anyM
          ((upTo .standard deepest false).check n (room - 5) (depth + 1)
            (tuple (.made (i + 6)) [s]).value)).outcome :=
    check_outcome space rfl
  rw [options, List.anyM_cons]
  exact Run.error_bind.mpr (.inl deep)

theorem withTop_overflows :
    (upTo .standard 100000 false).Overflows (tuples 3 0 2000).value
      (withTop (tuples 3 1 2000) false).value := by
  refine check_withTop (n := 100000) (i := 5994) (s := tuples 3 0 1999) (by decide) ?_
  have deep : Descends (5 * 2000) 2000 (tuples 3 0 2000) (tuples 3 1 2000) :=
    descends_tuples (by decide) 2000
  exact check_of_descends deep (by decide)

/-- **An option that leads too far.**  A tree of tuples conforms to a union of everything and
another such tree.  With the options the other way round the trees are compared first, and the
comparison is given up. -/
theorem option_order_decides :
    let a := tuples 3 0 2000
    let b := withTop (tuples 3 1 2000)
    a.WellFormed ∧ (∀ first, (b first).WellFormed) ∧
      (∀ first, a.LivesIn (heapWithTop first) ∧ (b first).LivesIn (heapWithTop first)) ∧
      Rearranged a a ∧ Rearranged (b true) (b false) ∧
      ((upTo .standard 100000 false).conforms a.value (b true).value).outcome = .ok true ∧
      ((upTo .standard 100000 false).conforms a.value (b false).value).outcome = .ok false := by
  intro a b
  have sound (first : Nat) : (tuples 3 first 2000).WellFormed := tuples_wellFormed 3 first 2000
  have lives (top : Bool) {first : Nat} (h : first < 2) :
      (tuples 3 first 2000).LivesIn (heapWithTop top) :=
    tuples_livesIn_of_mod (fun _ low => if_pos low) h 2000
  refine ⟨sound 0, fun first => ?_, fun first => ⟨lives first (by decide), ?_⟩,
    tuples_rearranged 3 0 2000, rearranged_withTop (tuples_rearranged 3 1 2000),
    conforms_withTop 5994 _ _, ?_⟩
  · refine everywhere_withTop.mpr ⟨⟨⟨2, ?_⟩, ?_⟩, ⟨⟨5, rfl⟩, trivial⟩, sound 1⟩
    · cases first <;> rfl
    · cases first <;> exact List.cons_ne_nil _ _
  · refine everywhere_withTop.mpr ⟨?_, keeps_of_node (n := 5) rfl ?_ rfl, lives first (by decide)⟩
    · cases first <;> exact keeps_of_node (n := 2) rfl rfl rfl
    · cases first <;> rfl
  · exact conforms_outcome_of_overflows withTop_overflows

end Policy

end Conformance
