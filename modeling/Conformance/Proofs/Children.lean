/-
# Conformance.Proofs.Children — which children are let through, and what is said of the others.

A child may be a node, which is kept as it is, or an empty mapping, for which a node without a kind
is made.  Anything else is an issue: a mapping one for each of its keys, another value one as a
whole.  A field adds an issue of its own if its name is no text.

What is checked in parts gives a result if no part has an issue, and otherwise the issues of all
parts in order (`Checked.Reports`).  This passes through lists and mappings of any length, so a
report is complete, in order, and without anything that is not wrong.
-/
import Conformance.Proofs.Listed
import Conformance.Proofs.Outcome
import Conformance.Session

namespace Conformance

/-! ## Results and reports -/

namespace Checked

variable {α β : Type} {P : α → Prop} {Q : β → Prop} {c : Checked α} {d : Checked β}
  {issues more : List Issue}

/-- **`Reports c issues P`** — without issues there is a result with the property, and otherwise
these issues are what is reported. -/
def Reports (c : Checked α) (issues : List Issue) (P : α → Prop) : Prop :=
  (issues = [] → ∃ a, c = .ok a ∧ P a) ∧ (issues ≠ [] → c = .error issues)

namespace Reports

theorem ok {a : α} (h : P a) : Reports (.ok a) [] P := by
  refine ⟨fun _ => ⟨a, rfl, h⟩, ?_⟩
  intro some
  exact absurd rfl some

theorem error (some : issues ≠ []) : Reports (.error issues : Checked α) issues P := by
  refine ⟨?_, fun _ => rfl⟩
  intro none
  exact absurd none some

theorem map {f : α → β} (h : Reports c issues P) (imp : ∀ a, P a → Q (f a)) :
    Reports (c.map f) issues Q := by
  constructor
  · intro none
    obtain ⟨a, rfl, ha⟩ := h.1 none
    exact ⟨f a, rfl, imp a ha⟩
  · intro some
    rw [h.2 some]
    rfl

/-- The issues of both are put together. -/
theorem and (hc : Reports c issues P) (hd : Reports d more Q) :
    Reports (c.and d) (issues ++ more) fun p => P p.1 ∧ Q p.2 := by
  by_cases first : issues = [] <;> by_cases second : more = []
  · obtain ⟨a, rfl, ha⟩ := hc.1 first
    obtain ⟨b, rfl, hb⟩ := hd.1 second
    subst first second
    exact ok ⟨ha, hb⟩
  · obtain ⟨a, rfl, ha⟩ := hc.1 first
    rw [hd.2 second, first]
    exact error second
  · obtain ⟨b, rfl, hb⟩ := hd.1 second
    rw [hc.2 first, second, List.append_nil]
    exact error first
  · rw [hc.2 first, hd.2 second]
    exact error (by simp [first])

theorem cons {cs : Checked (List α)} {R S : List α → Prop} (hc : Reports c issues P)
    (hcs : Reports cs more R) (step : ∀ a as, P a → R as → S (a :: as)) :
    Reports (c.cons cs) (issues ++ more) S :=
  (hc.and hcs).map fun p hp => step p.1 p.2 hp.1 hp.2

theorem within (h : Reports c issues P) (step : Place) :
    Reports (c.within step) (issues.map (Issue.within step)) P := by
  constructor
  · intro none
    obtain ⟨a, rfl, ha⟩ := h.1 (List.map_eq_nil_iff.mp none)
    exact ⟨a, rfl, ha⟩
  · intro some
    rw [h.2 fun none => some (List.map_eq_nil_iff.mpr none)]
    rfl

end Reports

end Checked

/-! ## One child -/

/-- A child may be a node or an empty mapping. -/
def Value.isChild : Value → Bool
  | .node _ _ _ => true
  | .dict _ [] => true
  | _ => false

/-- **`Kept n m v w`** — for the child `v` there is kept `w`: the very node, or in place of an empty
mapping a new node without a kind, with an identity from `n` to `m`. -/
inductive Kept (n m : Nat) : Value → Value → Prop where
  | node (id : Ident) (model : Model) (parts : List (Part × Value)) :
    Kept n m (.node id model parts) (.node id model parts)
  | bare (id : Ident) {k : Nat} (lower : n ≤ k) (upper : k < m) :
    Kept n m (.dict id []) (.node (.made k) .base [])

/-- **`childIssues place v`** — what is wrong with a child at a place: each key of a mapping, as a
part that there is not or else as no text, or the value itself. -/
def childIssues (place : List Place) : Value → List Issue
  | .node _ _ _ => []
  | .dict _ entries => entries.map fun e =>
    ⟨place ++ [.ofKey e.1], if e.1.isText then .unknownPart else .keyNotText⟩
  | _ => [⟨place, .notDescriptor⟩]

section Child

variable {n n' m m' : Nat} {v w : Value}

theorem Kept.mono (h : Kept n m v w) (lower : n' ≤ n) (upper : m ≤ m') : Kept n' m' v w := by
  cases h with
  | node id model parts => exact .node id model parts
  | bare id low high => exact .bare id (by omega) (by omega)

theorem childIssues_eq_nil_iff (place : List Place) :
    childIssues place v = [] ↔ v.isChild = true := by
  unfold childIssues
  split
  · simp [Value.isChild]
  · rename_i id entries
    cases entries <;> simp [Value.isChild]
  · rename_i noNode noDict
    refine iff_of_false (by simp) fun child => ?_
    unfold Value.isChild at child
    split at child
    · exact noNode _ _ _ rfl
    · exact noDict _ _ rfl
    · cases child

/-- The issues of a child, seen from one step further out. -/
theorem map_within_childIssues (step : Place) (place : List Place) (v : Value) :
    (childIssues place v).map (Issue.within step) = childIssues (step :: place) v := by
  cases v with
  | dict id entries =>
    simp only [childIssues, List.map_map]
    rfl
  | _ => rfl

/-- **A child is kept, or its issues are reported.** -/
theorem acceptChild_reports (v : Value) (n : Nat) :
    ∃ c m, Descriptor.acceptChild v n = .ok (c, m) ∧ n ≤ m ∧
      c.Reports (childIssues [] v) (Kept n m v) := by
  have single : [⟨[], .notDescriptor⟩] ≠ ([] : List Issue) := by simp
  cases v with
  | node id model parts => exact ⟨_, n, rfl, Nat.le_refl _, .ok (.node id model parts)⟩
  | dict id entries =>
    cases entries with
    | nil => exact ⟨_, n + 1, rfl, by omega, .ok (.bare id (Nat.le_refl n) (by omega))⟩
    | cons e rest =>
      exact ⟨_, n, rfl, Nat.le_refl n, .error (by simp)⟩
  | _ => exact ⟨_, n, rfl, Nat.le_refl _, .error single⟩

end Child

/-! ## Children by position and by name -/

/-- **`itemIssues place start xs`** — what is wrong with children by position, from one on. -/
def itemIssues (place : List Place) (start : Nat) (xs : List Value) : List Issue :=
  (xs.zipIdx start).flatMap fun p => childIssues (place ++ [.position p.2]) p.1

/-- What is wrong with the name of a field. -/
def nameIssues (place : List Place) (key : Value) : List Issue :=
  if key.isText then [] else [⟨place ++ [.name "[key]"], .notText⟩]

/-- **`fieldIssues place entries`** — what is wrong with fields, one after the other: first the name
and then the child. -/
def fieldIssues (place : List Place) (entries : Entries) : List Issue :=
  entries.flatMap fun e =>
    nameIssues (place ++ [.ofKey e.1]) e.1 ++ childIssues (place ++ [.ofKey e.1]) e.2

/-- **`KeptField n m e f`** — for the field `e` there is kept `f`, under the same text. -/
def KeptField (n m : Nat) (e f : Value × Value) : Prop :=
  (∃ s, e.1.text? = some s ∧ f.1 = .text s) ∧ Kept n m e.2 f.2

section Many

variable {xs : List Value} {key : Value} {entries : Entries}

theorem map_within_itemIssues (step : Place) (place : List Place) (start : Nat) (xs : List Value) :
    (itemIssues place start xs).map (Issue.within step) = itemIssues (step :: place) start xs := by
  simp only [itemIssues, List.map_flatMap, map_within_childIssues, List.cons_append]

theorem map_within_nameIssues (step : Place) (place : List Place) (key : Value) :
    (nameIssues place key).map (Issue.within step) = nameIssues (step :: place) key := by
  unfold nameIssues
  split <;> rfl

theorem map_within_fieldIssues (step : Place) (place : List Place) (entries : Entries) :
    (fieldIssues place entries).map (Issue.within step) = fieldIssues (step :: place) entries := by
  simp only [fieldIssues, List.map_flatMap, List.map_append, map_within_nameIssues,
    map_within_childIssues, List.cons_append]

theorem itemIssues_eq_nil_iff (place : List Place) (start : Nat) :
    itemIssues place start xs = [] ↔ ∀ x ∈ xs, x.isChild = true := by
  induction xs generalizing start with
  | nil => simp [itemIssues]
  | cons x rest ih =>
    have later := ih (start + 1)
    rw [itemIssues] at later
    rw [itemIssues, List.zipIdx_cons, List.flatMap_cons, List.append_eq_nil_iff, later,
      childIssues_eq_nil_iff, List.forall_mem_cons]

theorem fieldIssues_eq_nil_iff (place : List Place) :
    fieldIssues place entries = [] ↔ ∀ e ∈ entries, e.1.isText = true ∧ e.2.isChild = true := by
  simp [fieldIssues, nameIssues, childIssues_eq_nil_iff]

/-- **Children are kept by position, or the issues of all are reported.** -/
theorem acceptChildren_reports (xs : List Value) (start n : Nat) :
    ∃ c m, Descriptor.acceptChildren start xs n = .ok (c, m) ∧ n ≤ m ∧
      c.Reports (itemIssues [] start xs) (List.Forall₂ (Kept n m) xs) := by
  induction xs generalizing start n with
  | nil => exact ⟨_, n, rfl, Nat.le_refl n, .ok .nil⟩
  | cons x rest ih =>
    obtain ⟨c, k, first, low, reported⟩ := acceptChild_reports x n
    obtain ⟨cs, m, others, high, reportedLater⟩ := ih (start + 1) k
    refine ⟨(c.within (.position start)).cons cs, m, ?_, by omega, ?_⟩
    · rw [Descriptor.acceptChildren, Build.bind_eq_of_ok first, Build.bind_eq_of_ok others]
      rfl
    · have split : itemIssues [] start (x :: rest) =
          (childIssues [] x).map (Issue.within (.position start)) ++
            itemIssues [] (start + 1) rest := by
        rw [map_within_childIssues]
        rfl
      rw [split]
      refine (reported.within _).cons reportedLater fun w ws hw hws => ?_
      refine .cons (hw.mono (Nat.le_refl n) high) (hws.imp fun _ _ kept => ?_)
      exact kept.mono low (Nat.le_refl m)

/-- A name that is no named constant is kept if it is a text, and reported if not. -/
theorem acceptName_reports (unnamed : key.constantValue? = none) (n : Nat) :
    ∃ c, Descriptor.acceptName key n = .ok (c, n) ∧
      c.Reports (nameIssues [] key) fun w => ∃ s, key.text? = some s ∧ w = .text s := by
  unfold nameIssues
  cases text : key.text? with
  | some s =>
    refine ⟨.ok (.text s), ?_, ?_⟩
    · simp only [Descriptor.acceptName, Descriptor.textFor?, text]
      rfl
    · rw [if_pos (by simp [Value.isText, text])]
      exact .ok ⟨s, rfl, rfl⟩
  | none =>
    refine ⟨.error [⟨[.name "[key]"], .notText⟩], ?_, ?_⟩
    · simp only [Descriptor.acceptName, Descriptor.textFor?, text, unnamed]
      rfl
    · rw [if_neg (by simp [Value.isText, text])]
      exact .error (by simp)

/-- **Fields are kept by name, or the issues of all are reported.** -/
theorem acceptFields_reports (unnamed : ∀ e ∈ entries, e.1.constantValue? = none) (n : Nat) :
    ∃ c m, Descriptor.acceptFields entries n = .ok (c, m) ∧ n ≤ m ∧
      c.Reports (fieldIssues [] entries) (List.Forall₂ (KeptField n m) entries) := by
  induction entries generalizing n with
  | nil => exact ⟨_, n, rfl, Nat.le_refl n, .ok .nil⟩
  | cons e rest ih =>
    obtain ⟨unnamedHere, unnamedLater⟩ := List.forall_mem_cons.mp unnamed
    obtain ⟨name, named, reportedName⟩ := acceptName_reports unnamedHere n
    obtain ⟨child, k, kept, low, reportedChild⟩ := acceptChild_reports e.2 n
    obtain ⟨cs, m, others, high, reportedLater⟩ := ih unnamedLater k
    refine ⟨((name.and child).within (.ofKey e.1)).cons cs, m, ?_, by omega, ?_⟩
    · rw [Descriptor.acceptFields, Build.bind_eq_of_ok named, Build.bind_eq_of_ok kept,
        Build.bind_eq_of_ok others]
      rfl
    · have split : fieldIssues [] (e :: rest) =
          (nameIssues [] e.1 ++ childIssues [] e.2).map (Issue.within (.ofKey e.1)) ++
            fieldIssues [] rest := by
        rw [List.map_append, map_within_nameIssues, map_within_childIssues]
        rfl
      rw [split]
      refine ((reportedName.and reportedChild).within _).cons reportedLater fun f fs hf hfs => ?_
      refine .cons ⟨hf.1, hf.2.mono (Nat.le_refl n) high⟩ (hfs.imp fun _ _ field => ?_)
      exact ⟨field.1, field.2.mono low (Nat.le_refl m)⟩

end Many

/-! ## Mappings with different keys -/

section Mappings

variable {known es : Entries} {key value : Value}

theorem Entries.put_of_unknown (unknown : ∀ e ∈ es, e.1.agrees key = false) :
    es.put key value = es ++ [(key, value)] := by
  induction es with
  | nil => rfl
  | cons e rest ih =>
    obtain ⟨here, later⟩ := List.forall_mem_cons.mp unknown
    rw [Entries.put, here, if_neg Bool.false_ne_true, ih later, List.cons_append]

/-- Entries with different keys are put one after the other. -/
theorem Entries.merge_of_distinct
    (distinct : (known ++ es).Pairwise fun e f => e.1.agrees f.1 = false) :
    known.merge es = known ++ es := by
  induction es generalizing known with
  | nil => simp [Entries.merge]
  | cons e rest ih =>
    have unknown : ∀ f ∈ known, f.1.agrees e.1 = false := fun f hf =>
      (List.pairwise_append.mp distinct).2.2 f hf e List.mem_cons_self
    have next : known.merge (e :: rest) = (known.put e.1 e.2).merge rest := rfl
    rw [next, put_of_unknown unknown, ih (by simpa using distinct), List.append_assoc,
      List.singleton_append]

/-- Texts of the same characters agree, whatever class they are of. -/
theorem agrees_of_text? {a b : Value} {s : String} (ha : a.text? = some s) (hb : b.text? = some s) :
    a.agrees b = true := by
  have equal : a.eqPlain b = true := by
    simp [Value.eqPlain, Value.numeric?_of_text? ha, ha, hb]
  have plain : a.eq b = a.eqPlain b := by
    cases a with
    | text t => rfl
    | object id c => rfl
    | _ => cases ha
  rw [Value.agrees, plain, equal, Bool.or_true]

variable {n m : Nat} {entries fields : Entries}

theorem KeptField.names (kept : List.Forall₂ (KeptField n m) entries fields) :
    fields.map Prod.fst = entries.map fun e => .text (e.1.text?.getD "") := by
  induction kept with
  | nil => rfl
  | cons field _ ih =>
    obtain ⟨s, text, name⟩ := field.1
    rw [List.map_cons, List.map_cons, ih, name, text, Option.getD_some]

/-- Fields that are kept for different names have different names. -/
theorem KeptField.distinct (kept : List.Forall₂ (KeptField n m) entries fields)
    (texts : ∀ e ∈ entries, e.1.isText = true)
    (distinct : entries.Pairwise fun e f => e.1.agrees f.1 = false) :
    fields.Pairwise fun e f => e.1.agrees f.1 = false := by
  have names : (fields.map Prod.fst).Pairwise fun a b => a.agrees b = false := by
    rw [names kept, List.pairwise_map]
    refine distinct.imp_of_mem fun {e f} he hf apart => ?_
    obtain ⟨s, hs⟩ := Option.isSome_iff_exists.mp (texts e he)
    obtain ⟨t, ht⟩ := Option.isSome_iff_exists.mp (texts f hf)
    rw [hs, ht, Option.getD_some, Option.getD_some, Value.agrees_text]
    refine beq_false_of_ne ?_
    rintro rfl
    rw [agrees_of_text? hs ht] at apart
    cases apart
  exact List.pairwise_map.mp names

end Mappings

/-! ## Nodes with children -/

/-- **`Settles kind part n good issues P r`** — a node of one part is made if all is good, with
something of the property for its part, and otherwise the issues are the report. -/
def Settles (kind : Kind) (part : Part) (n : Nat) (good : Prop) (issues : List Issue)
    (P : Nat → Value → Prop) (r : Except Failure (Value × Nat)) : Prop :=
  (good → ∃ m v, n ≤ m ∧ P m v ∧ r = .ok (.node (.made m) (.of kind) [(part, v)], m + 1)) ∧
    (¬ good → r = .error (.invalid (.of kind) issues))

section Nodes

variable {kind : Kind} {part : Part} {n m : Nat} {v : Value} {c : Checked Value}
  {issues : List Issue} {P : Nat → Value → Prop} {good : Prop}

/-- A node of one part is made from what is accepted for that part. -/
theorem construct_settles (only : (Model.of kind).parts = [part])
    (accepted : Descriptor.acceptPart (.of kind) part v n = .ok (c, m)) (later : n ≤ m)
    (reports : c.Reports issues (P m)) (flawless : issues = [] ↔ good) :
    Settles kind part n good (issues.map (Issue.within (.name part.name))) P
      (Descriptor.construct (.of kind) [(part.name, v)] n) := by
  have parts : Descriptor.acceptParts (.of kind) [(part.name, v)] (Model.of kind).parts n =
      .ok (.cons ((c.within (.name part.name)).map fun w => (part, w)) (.ok []), m) := by
    rw [only, Descriptor.acceptParts, Descriptor.acceptArgument]
    simp only [List.lookup_cons_self]
    rw [bind_assoc, Build.bind_eq_of_ok accepted]
    rfl
  have named : Descriptor.extraIssues (.of kind) [(part.name, v)] = [] := by
    simp [Descriptor.extraIssues, only]
  rw [Descriptor.construct, Build.bind_eq_of_ok parts, named]
  constructor
  · intro ok
    obtain ⟨w, rfl, hw⟩ := reports.1 (flawless.mpr ok)
    exact ⟨m, w, later, hw, rfl⟩
  · intro bad
    rw [reports.2 fun none => bad (flawless.mp none)]
    rfl

/-- Children are accepted as a tuple. -/
theorem acceptTuple_reports (xs : List Value) (n : Nat) :
    ∃ c m, Descriptor.acceptTuple xs n = .ok (c, m) ∧ n ≤ m ∧ c.Reports (itemIssues [] 0 xs)
      fun v => ∃ items, v = .tuple .transient items ∧ List.Forall₂ (Kept n m) xs items := by
  obtain ⟨c, m, accepted, later, reports⟩ := acceptChildren_reports xs 0 n
  refine ⟨c.map (.tuple .transient), m, ?_, later, reports.map fun items kept => ⟨items, rfl, kept⟩⟩
  rw [Descriptor.acceptTuple, Build.bind_eq_of_ok accepted]
  rfl

/-- Fields are accepted as a read-only mapping, in the same order. -/
theorem acceptShape_reports {entries : Entries}
    (unnamed : ∀ e ∈ entries, e.1.constantValue? = none)
    (distinct : entries.Pairwise fun e f => e.1.agrees f.1 = false) (n : Nat) :
    ∃ c m, Descriptor.acceptPart (.of .object) .shape (.dict .transient entries) n = .ok (c, m) ∧
      n ≤ m ∧ c.Reports (fieldIssues [] entries)
        fun v => ∃ fields, v = .frozen fields ∧ List.Forall₂ (KeptField n m) entries fields := by
  obtain ⟨c, m, accepted, later, reports⟩ := acceptFields_reports unnamed n
  refine ⟨c.map fun fields => .frozen (Entries.merge [] fields), m, ?_, later, ?_, ?_⟩
  · simp only [Descriptor.acceptPart, Value.entries?]
    rw [Build.bind_eq_of_ok accepted]
    rfl
  · intro none
    obtain ⟨fields, rfl, kept⟩ := reports.1 none
    have texts : ∀ e ∈ entries, e.1.isText = true := fun e he =>
      ((fieldIssues_eq_nil_iff []).mp none e he).1
    refine ⟨.frozen (Entries.merge [] fields), rfl, fields, ?_, kept⟩
    rw [Entries.merge_of_distinct (by simpa using KeptField.distinct kept texts distinct),
      List.nil_append]
  · intro some
    rw [reports.2 some]
    rfl

end Nodes

/-- **Children are let through, or reported completely.**  A tuple is made if every child is a node
or an empty mapping, a union if moreover there is one, and an object if moreover every name is a
text.  Each node is kept in its place as it is, and each empty mapping gives a new node without a
kind.  Otherwise the report has, child by child, an issue for each key of a mapping and one for any other
value that is no node; that of a name that is no text comes before those of its child. -/
theorem children_reported (n : Nat) (id : Ident) (xs : List Value) {entries : Entries}
    (unnamed : ∀ e ∈ entries, e.1.constantValue? = none)
    (distinct : entries.Pairwise fun e f => e.1.agrees f.1 = false) :
    Settles .tuple .items n (∀ x ∈ xs, x.isChild = true) (itemIssues [.name "items"] 0 xs)
      (fun m v => ∃ items, v = .tuple .transient items ∧ List.Forall₂ (Kept n m) xs items)
      ((Builder.of .tuple).apply [.list id xs] n) ∧
    (xs ≠ [] →
      Settles .union .options n (∀ x ∈ xs, x.isChild = true) (itemIssues [.name "options"] 0 xs)
        (fun m v => ∃ items, v = .tuple .transient items ∧ List.Forall₂ (Kept n m) xs items)
        ((Builder.of .union).apply [.list id xs] n)) ∧
    (Builder.of .union).apply [.list id []] n =
      .error (.invalid (.of .union) [⟨[.name "options"], .refused .noOption⟩]) ∧
    Settles .object .shape n (∀ e ∈ entries, e.1.isText = true ∧ e.2.isChild = true)
      (fieldIssues [.name "shape"] entries)
      (fun m v => ∃ fields, v = .frozen fields ∧ List.Forall₂ (KeptField n m) entries fields)
      ((Builder.of .object).apply [.dict id entries] n) := by
  obtain ⟨c, m, accepted, later, reports⟩ := acceptTuple_reports xs n
  refine ⟨?_, fun some => ?_, rfl, ?_⟩
  · rw [← map_within_itemIssues]
    exact construct_settles rfl accepted later reports (itemIssues_eq_nil_iff [] 0)
  · have options : Descriptor.acceptPart (.of .union) .options (.tuple .transient xs) n =
        .ok (c, m) := by
      show (if xs.isEmpty then pure (.complain (.refused .noOption)) else
        Descriptor.acceptTuple xs : Build (Checked Value)) n = _
      rw [if_neg (by simpa using some), accepted]
    rw [← map_within_itemIssues]
    exact construct_settles rfl options later reports (itemIssues_eq_nil_iff [] 0)
  · have shape : Builder.shapeFrom (.dict id entries) = .ok entries := by
      cases entries <;> rfl
    have made : (Builder.of .object).apply [.dict id entries] n =
        Descriptor.constructObject entries n := by
      show (Build.ofExcept (Builder.shapeFrom (.dict id entries)) >>=
        Descriptor.constructObject) n = _
      rw [shape]
      rfl
    obtain ⟨c, m, accepted, later, reports⟩ := acceptShape_reports unnamed distinct n
    rw [made, ← map_within_fieldIssues]
    exact construct_settles rfl accepted later reports (fieldIssues_eq_nil_iff [])

/-- A tuple of a node, a number and a mapping with two keys; an object with a number for a name. -/
theorem bad_children_reported :
    let node : Value := .node (.made 0) (.of .string) []
    let mapping : Value := .dict (.made 1) [(.text "a", .null), (.text "b", .null)]
    (Builder.of .tuple).apply [.list (.made 2) [node, .int 5, mapping]] 3 =
      .error (.invalid (.of .tuple) [⟨[.name "items", .position 1], .notDescriptor⟩,
        ⟨[.name "items", .position 2, .name "a"], .unknownPart⟩,
        ⟨[.name "items", .position 2, .name "b"], .unknownPart⟩]) ∧
    (Builder.of .object).apply [.dict (.made 2) [(.text "x", node), (.int 7, .null)]] 3 =
      .error (.invalid (.of .object) [⟨[.name "shape", .position 7, .name "[key]"], .notText⟩,
        ⟨[.name "shape", .position 7], .notDescriptor⟩]) := by
  intro node mapping
  have unnamed : ∀ e ∈ [(Value.text "x", node), (.int 7, .null)], e.1.constantValue? = none := by
    simp [Value.constantValue?]
  have distinct : [(Value.text "x", node), (.int 7, .null)].Pairwise
      fun e f => e.1.agrees f.1 = false := by
    simp only [List.pairwise_cons, List.forall_mem_singleton]
    exact ⟨by decide, List.forall_mem_nil _, .nil⟩
  obtain ⟨tuple, -, -, object⟩ :=
    children_reported 3 (.made 2) [node, .int 5, mapping] unnamed distinct
  exact ⟨tuple.2 (by decide), object.2 (by decide)⟩

end Conformance
