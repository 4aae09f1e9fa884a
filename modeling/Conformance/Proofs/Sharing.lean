/-
# Conformance.Proofs.Sharing — sharing nodes only helps.

Two trees may share nodes with each other, and a comparison accepts a node and itself.  Copies of
the trees may share fewer nodes: `SharesMore` says that wherever the copies hold one node, the
originals do so at the same positions.  Then whatever the comparison accepts of the copies it
accepts of the originals (`assignable_of_twins`).

The comparison does not stay among the positions of the two trees: it looks at nodes that stand for
absence, and at the merged object of an intersection.  Such nodes are shared with nothing.  `Twins`
relates a subtree, or such a node, to its counterpart, and it is a correspondence.
-/
import Conformance.Proofs.Limits
import Conformance.Proofs.Reflexivity

namespace Conformance

/-! ## Listed values and their copies -/

namespace Value

variable {heap : Heap} {v v' : Value}

namespace IsCopy

theorem listedIn (h : v.IsCopy v') (hv : v.ListedIn heap) : v'.ListedIn heap := by
  refine ⟨h.mayList hv.1, ?_⟩
  cases h with
  | same => exact hv.2
  | float => trivial
  | object i j c =>
    cases c with
    | base => trivial
    | made k name parents => cases k <;> exact hv.2

/-- What an instance holds is fixed by its class, and its identity does not matter. -/
theorem inPrimitive_eq (h : v.IsCopy v') (kind : Option Kind) :
    v.inPrimitive kind = v'.inPrimitive kind := by
  cases h with
  | same => rfl
  | float => rfl
  | object i j c =>
    unfold inPrimitive
    cases layout : c.layout <;>
      simp [isText, text?, isFiniteNumber, isBool, isInteger, datum, layout, zeroOf]

theorem isNumber_eq (h : v.IsCopy v') : v.isNumber = v'.isNumber := by
  cases h with
  | same => rfl
  | float => rfl
  | object i j c => cases layout : c.layout <;> simp [isNumber, datum, layout, zeroOf]

end IsCopy

/-- **`ListedCopy heap v v'`** — a value that a node of the heap may list, and a copy of it. -/
def ListedCopy (heap : Heap) (v v' : Value) : Prop := v.ListedIn heap ∧ v.IsCopy v'

/-- Listed values and their copies hold the same; values are one value exactly when their copies
are. -/
theorem holdAlike_listedCopy : HoldAlike (ListedCopy heap) where
  sameValue_eq := by
    rintro v v' w w' signed ⟨listedV, copyV⟩ ⟨listedW, copyW⟩
    rw [Bool.eq_iff_iff, sameValue_iff listedV listedW,
      sameValue_iff (copyV.listedIn listedV) (copyW.listedIn listedW), copyV.essence_eq,
      copyW.essence_eq]
  inPrimitive_eq := fun kind h => h.2.inPrimitive_eq kind
  isNumber_eq := fun h => h.2.isNumber_eq
  isUndefined_eq := fun h => h.2.isUndefined_eq

end Value

/-! ## Positions -/

namespace Schema

/-- **`at?`** — the node at a position, which is given by the numbers of the children on the way
down. -/
def at? (s : Schema) : List Nat → Option Schema
  | [] => some s
  | i :: position => s.children[i]?.bind fun c => c.at? position

/-- The two nodes stand at one position of the two trees. -/
def Matched (a a' x x' : Schema) : Prop :=
  ∃ position, a.at? position = some x ∧ a'.at? position = some x'

/-- **`SharesMore a a' b b'`** — wherever `a'` and `b'` hold one node, `a` and `b` hold one node at
the same positions. -/
def SharesMore (a a' b b' : Schema) : Prop :=
  ∀ x x' y y', Matched a a' x x' → Matched b b' y y' → x'.id.same y'.id = true →
    x.id.same y.id = true

theorem matched_self (a a' : Schema) : Matched a a' a a' := ⟨[], rfl, rfl⟩

theorem matched_iff {a a' x x' : Schema} :
    Matched a a' x x' ↔ (x = a ∧ x' = a') ∨
      ∃ (i : Nat) (c c' : Schema), a.children[i]? = some c ∧ a'.children[i]? = some c' ∧
        Matched c c' x x' := by
  constructor
  · rintro ⟨position, hx, hx'⟩
    cases position with
    | nil => exact .inl ⟨(Option.some.inj hx).symm, (Option.some.inj hx').symm⟩
    | cons i position =>
      obtain ⟨c, hc, hx⟩ := Option.bind_eq_some_iff.mp hx
      obtain ⟨c', hc', hx'⟩ := Option.bind_eq_some_iff.mp hx'
      exact .inr ⟨i, c, c', hc, hc', position, hx, hx'⟩
  · rintro (⟨rfl, rfl⟩ | ⟨i, c, c', hc, hc', position, hx, hx'⟩)
    · exact matched_self _ _
    · refine ⟨i :: position, ?_, ?_⟩
      · rw [at?, hc, Option.bind_some, hx]
      · rw [at?, hc', Option.bind_some, hx']

theorem matched_of_flat {a a' x x' : Schema} (flat : a.children = []) (h : Matched a a' x x') :
    x = a ∧ x' = a' := by
  rcases matched_iff.mp h with here | ⟨i, c, c', hc, -, -⟩
  · exact here
  · rw [flat] at hc
    cases hc

/-! ## Twins -/

/-- **`Twins heap a a' x x'`** — the tree `x'` is a copy of `x`, and what both hold at a position is
held by `a` and `a'` at one position, or was made while they were compared. -/
structure Twins (heap : Heap) (a a' x x' : Schema) : Prop where
  copy : x.IsCopy x'
  lists : Everywhere (ListsIn heap) x
  within : ∀ u u', Matched x x' u u' → u'.id = .transient ∨ Matched a a' u u'

namespace Twins

variable {heap : Heap} {a a' x x' : Schema}

theorem refl (copy : a.IsCopy a') (lists : Everywhere (ListsIn heap) a) : Twins heap a a' a a' :=
  ⟨copy, lists, fun _ _ h => .inr h⟩

/-- The nodes below twins are twins. -/
theorem children (h : Twins heap a a' x x') :
    List.Forall₂ (Twins heap a a') x.children x'.children := by
  rw [List.forall₂_iff_get]
  obtain ⟨length, copies⟩ := List.forall₂_iff_get.mp h.copy.children
  refine ⟨length, fun i hi hi' => ⟨copies i hi hi', h.lists.child (List.get_mem _ _), ?_⟩⟩
  intro u u' below
  refine h.within u u' (matched_iff.mpr (.inr ⟨i, _, _, ?_, ?_, below⟩))
  · exact List.getElem?_eq_getElem hi
  · exact List.getElem?_eq_getElem hi'

/-- A node that is made while trees are compared has its twin, if the nodes below have theirs. -/
theorem of_children (copy : x.IsCopy x') (fresh : x'.id = .transient) (lists : x.ListsIn heap)
    (below : List.Forall₂ (Twins heap a a') x.children x'.children) : Twins heap a a' x x' := by
  refine ⟨copy, .intro lists fun c hc => ?_, fun u u' matched => ?_⟩
  · obtain ⟨c', -, twins⟩ := (Partners.of_forall₂ below).left c hc
    exact twins.lists
  · rcases matched_iff.mp matched with ⟨-, rfl⟩ | ⟨i, c, c', hc, hc', matched⟩
    · exact .inl fresh
    · obtain ⟨hi, rfl⟩ := List.getElem?_eq_some_iff.mp hc
      obtain ⟨hi', rfl⟩ := List.getElem?_eq_some_iff.mp hc'
      exact ((List.forall₂_iff_get.mp below).2 i hi hi').within u u' matched

theorem probe (w : Wrapper) : Twins heap a a' w.probe w.probe :=
  of_children (.plain _ _ _) rfl nofun .nil

theorem listed (h : Twins heap a a' x x') :
    List.Forall₂ (Value.ListedCopy heap) x.listed x'.listed := by
  have lists := h.lists.here
  have copy := h.copy
  cases copy with
  | literal i j copies => exact (List.forall₂_and_left _ _).mpr ⟨lists, copies⟩
  | enum i j copies => exact (List.forall₂_and_left _ _).mpr ⟨lists, copies⟩
  | _ => exact .nil

end Twins

/-- **`FieldTwins`** — fields of the same names, in the same order, with twins for types. -/
def FieldTwins (heap : Heap) (a a' : Schema) (fields fields' : List (String × Schema)) : Prop :=
  List.Forall₂ (fun f g => f.1 = g.1 ∧ Twins heap a a' f.2 g.2) fields fields'

namespace FieldTwins

variable {heap : Heap} {a a' : Schema} {fields fields' more more' : List (String × Schema)}

theorem of_object {i j : Ident} (h : Twins heap a a' (object i fields) (object j fields')) :
    FieldTwins heap a a' fields fields' := by
  have copy := h.copy
  cases copy with
  | object _ _ names => exact FieldsAlike.of_types names h.children

/-- The merged objects of twins are twins: they are made while trees are compared. -/
theorem merged (h : FieldTwins heap a a' fields fields') (hm : FieldTwins heap a a' more more') :
    Twins heap a a' (merged fields more) (merged fields' more') := by
  have both : FieldsAlike (Twins heap a a') (mergeFields fields more) (mergeFields fields' more') :=
    FieldsAlike.mergeFields h hm
  refine .of_children (.object _ _ both.names_eq ?_) rfl nofun both.types
  exact both.types.imp fun _ _ twins => twins.copy

end FieldTwins

/-! ## Comparisons of twins -/

variable {heap : Heap} {a a' b b' x x' y y' : Schema}

theorem Twins.layer (h : Twins heap a a' x x') :
    Layer (Value.ListedCopy heap) (Twins heap a a') x x' := by
  have listed := h.listed
  have children := h.children
  have copy := h.copy
  cases copy with
  | bare i j => exact .bare i j
  | plain i j sort => exact .plain i j sort
  | literal i j => exact .literal i j listed.length_eq (.of_forall₂ listed)
  | enum i j => exact .enum i j (.of_forall₂ listed)
  | wrap i j w => exact .wrap i j w (List.forall₂_cons.mp children).1
  | array i j => exact .array i j (List.forall₂_cons.mp children).1
  | tuple i j => exact .tuple i j children
  | object i j => exact .object i j (FieldsAlike.fieldsMatch (FieldTwins.of_object h))
  | record i j =>
    obtain ⟨key, rest⟩ := List.forall₂_cons.mp children
    exact .record i j key (List.forall₂_cons.mp rest).1
  | union i j => exact .union i j (.of_forall₂ children)
  | intersection i j =>
    obtain ⟨left, rest⟩ := List.forall₂_cons.mp children
    exact .intersection i j left (List.forall₂_cons.mp rest).1
  | custom i j label predicate target => exact .custom i j label predicate target

theorem Twins.correspondence : Correspondence (Value.ListedCopy heap) (Twins heap a a') where
  layer := Twins.layer
  probe := Twins.probe
  merged left right := (FieldTwins.of_object left).merged (.of_object right)

/-- Where the copies hold one node, so do the originals. -/
theorem same_of_twins (share : SharesMore a a' b b') (hx : Twins heap a a' x x')
    (hy : Twins heap b b' y y') (h : x'.id.same y'.id = true) : x.id.same y.id = true := by
  obtain ⟨n, madeX, madeY⟩ := Ident.same_iff.mp h
  have matchedX : Matched a a' x x' := by
    refine (hx.within x x' (matched_self x x')).resolve_left fun fresh => ?_
    rw [fresh] at madeX
    cases madeX
  have matchedY : Matched b b' y y' := by
    refine (hy.within y y' (matched_self y y')).resolve_left fun fresh => ?_
    rw [fresh] at madeY
    cases madeY
  exact share x x' y y' matchedX matchedY h

/-- **Sharing only helps**, with however many levels. -/
theorem assignable_of_twins (share : SharesMore a a' b b') {n : Nat} (hx : Twins heap a a' x x')
    (hy : Twins heap b b' y y') (h : Assignable n x' y') : Assignable n x y :=
  assignable_of_corresponds Value.holdAlike_listedCopy Twins.correspondence Twins.correspondence
    (same_of_twins share) hx hy h

end Schema

namespace Policy

open Schema

variable {a a' b b' : Schema}

/-- **Sharing only helps.**  Where copies that share less conform, the originals conform under the
same limit, unless their comparison is given up for lack of room, which does not happen to trees
that are not too high or under a limit that is not too high. -/
theorem conforms_of_sharesMore (stack : Stack) (deepest : Int) (trace : Bool) (heap : Heap)
    (soundA : a.WellFormed) (soundB : b.WellFormed) (livesA : a.LivesIn heap)
    (livesB : b.LivesIn heap) (copyA : a.IsCopy a') (copyB : b.IsCopy b')
    (share : SharesMore a a' b b')
    (h : ((upTo stack deepest trace).conforms a'.value b'.value).outcome = .ok true) :
    (((upTo stack deepest trace).conforms a.value b.value).outcome = .ok true ↔
        ¬ (upTo stack deepest trace).Overflows a.value b.value) ∧
      (5 * (a.height + b.height) + stack.most ≤ stack.whole ∨
          5 * (deepest + 1) + stack.most ≤ stack.whole →
        ¬ (upTo stack deepest trace).Overflows a.value b.value) := by
  have twinsA : Twins heap a a' a a' :=
    .refl copyA ((soundA.and livesA).mono fun _ both => both.1.2.listsIn both.2)
  have twinsB : Twins heap b b' b b' :=
    .refl copyB ((soundB.and livesB).mono fun _ both => both.1.2.listsIn both.2)
  have accepted : Assignable ((upTo stack deepest trace).levelsFrom 0) a b :=
    assignable_of_twins share twinsA twinsB (assignable_of_conforms h)
  exact ⟨conforms_iff_not_overflows accepted, not_overflows_of_bound soundA⟩

/-- Two tuples that share a custom node.  The originals share a literal as well, which the copies
have twice, each with a "not a number" of its own. -/
theorem shared_custom_conforms :
    let nan : Binary64 := ⟨0x7FF8000000000000⟩
    let custom (n : Nat) : Schema := .custom (.made n) "tag" .null .null
    let literal (n : Nat) : Schema := .literal (.made n) [.float (.made (n + 20)) nan]
    let pair (i j k : Nat) : Schema := .tuple (.made i) [custom j, literal k]
    ((upTo .standard 8 false).conforms (pair 10 11 12).value (pair 13 11 14).value).outcome = .ok true ∧
      ((upTo .standard 8 false).conforms (pair 0 1 2).value (pair 3 1 2).value).outcome = .ok true := by
  intro nan custom literal pair
  have positions {i j k l m n : Nat} {x x' : Schema} (h : Matched (pair i j k) (pair l m n) x x') :
      (x.id = .made i ∧ x'.id = .made l) ∨ (x.id = .made j ∧ x'.id = .made m) ∨
        (x.id = .made k ∧ x'.id = .made n) := by
    rcases matched_iff.mp h with ⟨rfl, rfl⟩ | ⟨number, c, c', hc, hc', below⟩
    · exact .inl ⟨rfl, rfl⟩
    · right
      match number with
      | 0 =>
        cases hc
        cases hc'
        obtain ⟨rfl, rfl⟩ := matched_of_flat rfl below
        exact .inl ⟨rfl, rfl⟩
      | 1 =>
        cases hc
        cases hc'
        obtain ⟨rfl, rfl⟩ := matched_of_flat rfl below
        exact .inr ⟨rfl, rfl⟩
  have copy (i j k l m n : Nat) : (pair i j k).IsCopy (pair l m n) :=
    .tuple _ _ (.cons (.custom _ _ _ _ _) (.cons (.literal _ _ (.cons (.float _ _ _) .nil)) .nil))
  have copies : ((upTo .standard 8 false).conforms (pair 10 11 12).value (pair 13 11 14).value).outcome =
      .ok true := by decide +kernel
  have shared := conforms_of_sharesMore (a := pair 0 1 2) (b := pair 3 1 2) .standard 8 false
    (.ofNodes [custom 1, literal 2, pair 0 1 2, pair 3 1 2]) ?_ ?_ ?_ ?_ (copy 0 1 2 10 11 12)
    (copy 3 1 2 13 11 14) ?_ copies
  · exact ⟨copies, shared.1.mpr (shared.2 (.inl (by decide)))⟩
  · simp [WellFormed, pair, custom, literal, IsSound, PartsSound, Schema.id, Value.MayList,
      Value.isLiteral, Value.datum, Value.HasClass, Value.same, Value.ident?, Value.sameData]
  · simp [WellFormed, pair, custom, literal, IsSound, PartsSound, Schema.id, Value.MayList,
      Value.isLiteral, Value.datum, Value.HasClass, Value.same, Value.ident?, Value.sameData]
  · simp [LivesIn, pair, custom, literal, Heap.Keeps, Heap.KeepsClass, Schema.id, listed,
      Heap.ofNodes]
  · simp [LivesIn, pair, custom, literal, Heap.Keeps, Heap.KeepsClass, Schema.id, listed,
      Heap.ofNodes]
  · intro x x' y y' hx hy same
    rcases positions hx with ⟨hx, hx'⟩ | ⟨hx, hx'⟩ | ⟨hx, hx'⟩ <;>
      rcases positions hy with ⟨hy, hy'⟩ | ⟨hy, hy'⟩ | ⟨hy, hy'⟩ <;>
        rw [hx', hy'] at same <;> rw [hx, hy] <;> first | rfl | cases same

end Policy

/-! ## A shared node that leads too far -/

namespace Schema

theorem Everywhere.of_at? {P : Schema → Prop} {a x : Schema} {position : List Nat}
    (h : Everywhere P a) (hx : a.at? position = some x) : P x := by
  induction position generalizing a with
  | nil =>
    cases hx
    exact h.here
  | cons i position ih =>
    obtain ⟨c, hc, hx⟩ := Option.bind_eq_some_iff.mp hx
    exact ih (h.child (List.mem_of_getElem? hc)) hx

/-- Copies that share nothing share less than anything. -/
theorem sharesMore_of_apart {a a' b b' : Schema} (apart : Apart a' b') : SharesMore a a' b b' := by
  rintro x x' y y' ⟨position, -, hx⟩ ⟨position', -, hy⟩ same
  rw [(apart.of_at? hx).of_at? hy] at same
  cases same

/-- A node for null, and then a further item. -/
def nullThen (i null : Nat) (s : Schema) : Schema := .tuple (.made i) [.plain (.made null) .null, s]

/-- A union of such a tuple and everything. -/
def nullThenOrTop (s : Schema) : Schema :=
  .union (.made 20) [nullThen 14 2 s, .plain (.made 17) .unknown]

/-- The heap of these nodes, where the further items are tuples inside each other. -/
def heapOfNulls : Heap where
  node n :=
    if n % 3 < 2 then tuples 3 (n % 3) (n / 3)
    else (Heap.ofNodes [.plain (.made 2) .null, .plain (.made 5) .null,
      nullThen 8 2 (tuples 3 0 2000), nullThen 11 5 (tuples 3 0 2000),
      nullThen 14 2 (tuples 3 1 2000), .plain (.made 17) .unknown,
      nullThenOrTop (tuples 3 1 2000)]).node n
  cls _ := .base .object

/-- Two towers of tuples live in a heap that has them at two of every three identities. -/
theorem tuples_livesIn_of_mod {heap : Heap} {first : Nat}
    (node : ∀ n, n % 3 < 2 → heap.node n = tuples 3 (n % 3) (n / 3)) (h : first < 2) (n : Nat) :
    (tuples 3 first n).LivesIn heap := by
  refine tuples_livesIn (fun n => ?_) n
  rw [node _ (by omega), show (3 * n + first) % 3 = first by omega,
    show (3 * n + first) / 3 = n by omega]

theorem tuples_livesIn_heapOfNulls {first : Nat} (h : first < 2) (n : Nat) :
    (tuples 3 first n).LivesIn heapOfNulls :=
  tuples_livesIn_of_mod (fun _ low => if_pos low) h n

section Nodes

variable {P : Schema → Prop} {i null : Nat} {s : Schema}

theorem everywhere_nullThen : Everywhere P (nullThen i null s) ↔
    P (nullThen i null s) ∧ P (.plain (.made null) .null) ∧ Everywhere P s := by
  rw [nullThen, everywhere_tuple, List.forall_mem_cons, List.forall_mem_singleton, everywhere_plain]

theorem everywhere_nullThenOrTop : Everywhere P (nullThenOrTop s) ↔
    P (nullThenOrTop s) ∧ Everywhere P (nullThen 14 2 s) ∧ P (.plain (.made 17) .unknown) := by
  rw [nullThenOrTop, everywhere_union, List.forall_mem_cons, List.forall_mem_singleton,
    everywhere_plain]

theorem nullThen_wellFormed (h : s.WellFormed) : (nullThen i null s).WellFormed :=
  everywhere_nullThen.mpr ⟨⟨⟨i, rfl⟩, trivial⟩, ⟨⟨null, rfl⟩, trivial⟩, h⟩

theorem nullThenOrTop_wellFormed (h : s.WellFormed) : (nullThenOrTop s).WellFormed :=
  everywhere_nullThenOrTop.mpr
    ⟨⟨⟨20, rfl⟩, List.cons_ne_nil _ _⟩, nullThen_wellFormed h, ⟨⟨17, rfl⟩, trivial⟩⟩

/-- A node that lists nothing is kept under its identity. -/
theorem keeps_of_node {heap : Heap} {n : Nat} (made : s.id = .made n) (node : heap.node n = s)
    (flat : s.listed = []) : heap.Keeps s := by
  refine ⟨fun m hm => ?_, fun v hv => ?_⟩
  · cases made.symm.trans hm
    exact node
  · rw [flat] at hv
    cases hv

theorem nullThen_livesIn {heap : Heap} (hi : heap.node i = nullThen i null s)
    (hn : heap.node null = .plain (.made null) .null) (hs : s.LivesIn heap) :
    (nullThen i null s).LivesIn heap :=
  everywhere_nullThen.mpr ⟨keeps_of_node rfl hi rfl, keeps_of_node rfl hn rfl, hs⟩

end Nodes

theorem nullThen_isCopy {i j null null' : Nat} {s t : Schema} (h : s.IsCopy t) :
    (nullThen i null s).IsCopy (nullThen j null' t) :=
  .tuple _ _ (.cons (.plain _ _ _) (.cons h .nil))

theorem nullThen_apart (n : Nat) :
    Apart (nullThen 11 5 (tuples 3 0 n)) (nullThenOrTop (tuples 3 1 n)) := by
  have source : Everywhere (fun s => ∃ k, s.id = .made k ∧ (k % 3 = 0 ∨ k = 5 ∨ k = 11))
      (nullThen 11 5 (tuples 3 0 n)) := by
    refine everywhere_nullThen.mpr ⟨⟨11, rfl, by decide⟩, ⟨5, rfl, by decide⟩, ?_⟩
    refine (tuples_ids 3 0 n).mono fun s hs => ?_
    obtain ⟨k, made⟩ := hs
    exact ⟨_, made, by omega⟩
  have target : Everywhere
      (fun t => ∃ k, t.id = .made k ∧ (k % 3 = 1 ∨ k = 2 ∨ k = 14 ∨ k = 17 ∨ k = 20))
      (nullThenOrTop (tuples 3 1 n)) := by
    refine everywhere_nullThenOrTop.mpr ⟨⟨20, rfl, by decide⟩, everywhere_nullThen.mpr
      ⟨⟨14, rfl, by decide⟩, ⟨2, rfl, by decide⟩, ?_⟩, ⟨17, rfl, by decide⟩⟩
    refine (tuples_ids 3 1 n).mono fun s hs => ?_
    obtain ⟨k, made⟩ := hs
    exact ⟨_, made, by omega⟩
  refine source.mono fun s hs => target.mono fun t ht => ?_
  obtain ⟨k, madeS, atS⟩ := hs
  obtain ⟨l, madeT, atT⟩ := ht
  rw [madeS, madeT]
  exact beq_eq_false_iff_ne.mpr (by omega)

end Schema

namespace Policy

open Schema

/-- Two nodes for null do not conform, so the first option is left at once. -/
theorem conforms_nullThen_copy (s t : Schema) :
    ((upTo .standard 100000 false).conforms (nullThen 11 5 s).value (nullThenOrTop t).value).outcome =
      .ok true := by
  rfl

/-- One node for null conforms to itself, and the comparison goes on with the further items. -/
theorem check_nullThen {n room : Nat} {deepest depth : Int} {s t : Schema} {e : Fault}
    (space : 15 ≤ room)
    (deep : ((upTo .standard deepest false).check (n + 1) (room - 5 - 5) (depth + 1 + 1) s.value
      t.value).outcome = .error e) :
    ((upTo .standard deepest false).check (n + 3) room depth (nullThen 8 2 s).value
      (nullThenOrTop t).value).outcome = .error e := by
  let p := upTo .standard deepest false
  let null : Schema := .plain (.made 2) .null
  have itself : (p.check (n + 1) (room - 5 - 5) (depth + 1 + 1) null.value null.value).outcome =
      .ok true :=
    outcome_check_same rfl (show 2 ≤ room - 5 - 5 by omega)
  have items : (p.check (n + 2) (room - 5) (depth + 1) (nullThen 8 2 s).value
      (nullThen 14 2 t).value).outcome =
        ([(null.value, null.value), (s.value, t.value)].allM fun q =>
          p.check (n + 1) (room - 5 - 5) (depth + 1 + 1) q.1 q.2).outcome :=
    check_outcome (show 5 ≤ room - 5 by omega) rfl
  have options : (p.check (n + 3) room depth (nullThen 8 2 s).value
      (nullThenOrTop t).value).outcome =
        ([(nullThen 14 2 t).value, (plain (.made 17) .unknown).value].anyM
          (p.check (n + 2) (room - 5) (depth + 1) (nullThen 8 2 s).value)).outcome :=
    check_outcome (show 5 ≤ room by omega) rfl
  have last : ([(s.value, t.value)].allM fun q =>
      p.check (n + 1) (room - 5 - 5) (depth + 1 + 1) q.1 q.2).outcome = .error e := by
    rw [List.allM_cons]
    exact Run.error_bind.mpr (.inl deep)
  rw [options, List.anyM_cons]
  refine Run.error_bind.mpr (.inl ?_)
  rw [items, List.allM_cons]
  exact Run.error_bind.mpr (.inr ⟨true, itself, last⟩)

theorem nullThen_overflows :
    (upTo .standard 100000 false).Overflows (nullThen 8 2 (tuples 3 0 2000)).value
      (nullThenOrTop (tuples 3 1 2000)).value := by
  refine check_nullThen (n := 99998) (by decide) ?_
  rw [check_of_descends (descends_tuples (by decide) 2000) (by decide)]
  rfl

/-- **A shared node that leads too far.**  Copies that share nothing conform, because the items
after the nodes for null are not looked at.  Where there is one node for null they are, and the
comparison is given up. -/
theorem shared_null_given_up :
    let a := nullThen 8 2 (tuples 3 0 2000)
    let a' := nullThen 11 5 (tuples 3 0 2000)
    let b := nullThenOrTop (tuples 3 1 2000)
    a.WellFormed ∧ a'.WellFormed ∧ b.WellFormed ∧
      a.LivesIn heapOfNulls ∧ a'.LivesIn heapOfNulls ∧ b.LivesIn heapOfNulls ∧
      a.IsCopy a' ∧ b.IsCopy b ∧ SharesMore a a' b b ∧
      ((upTo .standard 100000 false).conforms a'.value b.value).outcome = .ok true ∧
      ((upTo .standard 100000 false).conforms a.value b.value).outcome = .ok false := by
  intro a a' b
  have sound (first : Nat) : (tuples 3 first 2000).WellFormed := tuples_wellFormed 3 first 2000
  have lives {first : Nat} (h : first < 2) : (tuples 3 first 2000).LivesIn heapOfNulls :=
    tuples_livesIn_heapOfNulls h 2000
  refine ⟨nullThen_wellFormed (sound 0), nullThen_wellFormed (sound 0),
    nullThenOrTop_wellFormed (sound 1), nullThen_livesIn rfl rfl (lives (by decide)),
    nullThen_livesIn rfl rfl (lives (by decide)), everywhere_nullThenOrTop.mpr ⟨?_, ?_, ?_⟩,
    nullThen_isCopy (tuples_isCopy _), ?_, sharesMore_of_apart (nullThen_apart _),
    conforms_nullThen_copy _ _, ?_⟩
  · exact keeps_of_node (n := 20) rfl rfl rfl
  · exact nullThen_livesIn rfl rfl (lives (by decide))
  · exact keeps_of_node (n := 17) rfl rfl rfl
  · exact .union _ _ (.cons (nullThen_isCopy (tuples_isCopy _)) (.cons (.plain _ _ _) .nil))
  · exact conforms_outcome_of_overflows nullThen_overflows

end Policy

end Conformance
