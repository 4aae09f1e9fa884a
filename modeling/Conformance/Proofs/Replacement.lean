/-
# Conformance.Proofs.Replacement — more choice in the target, less choice in the source.

A union, a literal and an enumeration are choices.  If one that occurs in the target is replaced by
one with more to choose from, or one that occurs in the source by one with less, then what conformed
still conforms (`conforms_of_replaced`).  The nodes above the choice are new nodes, and all others
stay what they are (`Schema.Replaced`).

A choice may be told from outside: a field may be left out if its type has an option for absence,
and a literal with one value conforms where one with several does not.  Both speak for the target
with more and for the source with less, so replacement is a `Widening` and a `Narrowing`.

What is compared before the answer is found may be more than it was, and a comparison may be given
up for lack of room (`wider_union_given_up`).
-/
import Conformance.Proofs.Rearrangement

namespace Conformance

namespace Schema

/-! ## Occurrences -/

/-- **`Occurs u s`** — the tree `u` is the tree `s` or stands somewhere below it. -/
inductive Occurs (u : Schema) : Schema → Prop where
  | here : Occurs u u
  | child {s c : Schema} : c ∈ s.children → Occurs u c → Occurs u s

theorem Occurs.height_le {u s : Schema} (h : Occurs u s) : u.height ≤ s.height := by
  induction h with
  | here => exact Nat.le_refl _
  | child hc _ ih => exact ih.trans (height_lt_of_mem hc).le

theorem Everywhere.of_occurs {P : Schema → Prop} {u s : Schema} (h : Everywhere P s)
    (occurs : Occurs u s) : P u := by
  induction occurs with
  | here => exact h.here
  | child hc _ ih => exact ih (h.child hc)

/-- A tree does not occur below itself. -/
theorem not_occurs_of_mem {u c : Schema} (hc : c ∈ u.children) : ¬ Occurs u c := by
  intro h
  exact absurd h.height_le (Nat.not_le_of_lt (height_lt_of_mem hc))

/-! ## Choices -/

/-- **`IsChoice`** — a literal, an enumeration or a union. -/
def IsChoice : Schema → Prop
  | .literal _ _ | .enum _ _ | .union _ _ => True
  | _ => False

/-- **`Among u v`** — two choices of one kind, and what the first has to choose from is among what
the second has. -/
inductive Among : Schema → Schema → Prop where
  | literal (i j : Ident) {values members : List Value} : values ⊆ members →
      Among (.literal i values) (.literal j members)
  | enum (i j : Ident) {values members : List Value} : values ⊆ members →
      Among (.enum i values) (.enum j members)
  | union (i j : Ident) {xs ys : List Schema} : xs ⊆ ys → Among (.union i xs) (.union j ys)

/-- **`IsPart v u`** — what the first choice has to choose from is a part of what the second has,
and not nothing.  A literal has no more values than before: one value may not be listed twice. -/
inductive IsPart : Schema → Schema → Prop where
  | literal (i j : Ident) {values members : List Value} : values ⊆ members → values ≠ [] →
      values.length ≤ members.length → IsPart (.literal i values) (.literal j members)
  | enum (i j : Ident) {values members : List Value} : values ⊆ members → values ≠ [] →
      IsPart (.enum i values) (.enum j members)
  | union (i j : Ident) {xs ys : List Schema} : xs ⊆ ys → xs ≠ [] →
      IsPart (.union i xs) (.union j ys)

section Choices

variable {u v : Schema}

theorem IsPart.among (h : IsPart v u) : Among v u := by
  cases h with
  | literal i j subset => exact .literal i j subset
  | enum i j subset => exact .enum i j subset
  | union i j subset => exact .union i j subset

theorem Among.isChoice_left (h : Among u v) : u.IsChoice := by
  cases h <;> trivial

theorem Among.isChoice_right (h : Among u v) : v.IsChoice := by
  cases h <;> trivial

theorem Among.children_subset (h : Among u v) : u.children ⊆ v.children := by
  cases h with
  | union i j subset => exact subset
  | _ => exact List.nil_subset _

theorem Among.within {E : Value → Value → Prop} {R : Schema → Schema → Prop} (h : Among u v)
    (self : ∀ v, E v v) (below : ∀ c ∈ u.children, R c c) : Within E R u v := by
  cases h with
  | literal i j subset => exact .literal i j fun v hv => ⟨v, subset hv, self v⟩
  | enum i j subset => exact .enum i j fun v hv => ⟨v, subset hv, self v⟩
  | union i j subset => exact .union i j fun c hc => ⟨c, subset hc, below c hc⟩

theorem IsPart.listed_ne_nil (h : IsPart v u) (some : u.listed ≠ []) : v.listed ≠ [] := by
  cases h with
  | literal i j _ nonempty => exact nonempty
  | enum i j _ nonempty => exact nonempty
  | union => exact some

theorem IsPart.options_ne_nil (h : IsPart v u) (some : u.options ≠ []) : v.options ≠ [] := by
  cases h with
  | union i j _ nonempty => exact nonempty
  | _ => exact some

theorem IsPart.length_listed (h : IsPart v u) (literal : u.kind? = some .literal)
    (one : u.listed.length = 1) : v.listed.length = 1 := by
  cases h with
  | literal i j _ nonempty fewer =>
    have some := List.length_pos_of_ne_nil nonempty
    simp only [listed] at one ⊢
    omega
  | enum => cases literal
  | union => cases literal

theorem not_occurs_probe (choice : u.IsChoice) (w : Wrapper) : ¬ Occurs u w.probe := by
  intro h
  cases h with
  | here => exact choice
  | child hc => cases hc

theorem not_occurs_object (choice : u.IsChoice) {i : Ident} {fields : List (String × Schema)}
    (absent : ∀ f ∈ fields, ¬ Occurs u f.2) : ¬ Occurs u (.object i fields) := by
  intro h
  cases h with
  | here => exact choice
  | child hc below =>
    obtain ⟨f, hf, rfl⟩ := List.mem_map.mp hc
    exact absent f hf below

theorem not_occurs_merged (choice : u.IsChoice) {i j : Ident} {fields more : List (String × Schema)}
    (left : ¬ Occurs u (.object i fields)) (right : ¬ Occurs u (.object j more)) :
    ¬ Occurs u (merged fields more) := by
  refine not_occurs_object choice fun f hf below => ?_
  rcases mem_mergeFields hf with hf | hf
  · exact left (.child (List.mem_map_of_mem hf) below)
  · exact right (.child (List.mem_map_of_mem hf) below)

end Choices

/-! ## Replacement -/

/-- **`Replaced u u' s t`** — the tree `t` is `s` with `u'` everywhere in place of `u`.  A node that
`u` does not occur in is kept, and one that it occurs below is made anew. -/
inductive Replaced (u u' : Schema) : Schema → Schema → Prop where
  | kept {s : Schema} : ¬ Occurs u s → Replaced u u' s s
  | here : Replaced u u' u u'
  | wrap (i j : Ident) (w : Wrapper) {x y : Schema} : Occurs u x → Replaced u u' x y →
      Replaced u u' (.wrap i w x) (.wrap j w y)
  | array (i j : Ident) {x y : Schema} : Occurs u x → Replaced u u' x y →
      Replaced u u' (.array i x) (.array j y)
  | tuple (i j : Ident) {xs ys : List Schema} : (∃ x ∈ xs, Occurs u x) →
      List.Forall₂ (Replaced u u') xs ys → Replaced u u' (.tuple i xs) (.tuple j ys)
  | object (i j : Ident) {fields more : List (String × Schema)} : (∃ f ∈ fields, Occurs u f.2) →
      fields.map Prod.fst = more.map Prod.fst →
      List.Forall₂ (Replaced u u') (fields.map Prod.snd) (more.map Prod.snd) →
      Replaced u u' (.object i fields) (.object j more)
  | record (i j : Ident) {k l v w : Schema} : Occurs u k ∨ Occurs u v → Replaced u u' k l →
      Replaced u u' v w → Replaced u u' (.record i k v) (.record j l w)
  | union (i j : Ident) {xs ys : List Schema} : (∃ x ∈ xs, Occurs u x) →
      List.Forall₂ (Replaced u u') xs ys → Replaced u u' (.union i xs) (.union j ys)
  | intersection (i j : Ident) {x y z w : Schema} : Occurs u x ∨ Occurs u y → Replaced u u' x z →
      Replaced u u' y w → Replaced u u' (.intersection i x y) (.intersection j z w)

/-- Where there is nothing to replace, nothing is changed. -/
theorem Replaced.eq_of_not_occurs {u u' s t : Schema} (h : Replaced u u' s t)
    (apart : ¬ Occurs u s) : t = s := by
  have absent {c : Schema} (hc : c ∈ s.children) : ¬ Occurs u c := fun below =>
    apart (.child hc below)
  cases h with
  | kept => rfl
  | here => exact absurd .here apart
  | wrap i j w below => exact absurd below (absent (List.mem_singleton_self _))
  | array i j below => exact absurd below (absent (List.mem_singleton_self _))
  | tuple i j below =>
    obtain ⟨x, hx, below⟩ := below
    exact absurd below (absent hx)
  | object i j below =>
    obtain ⟨f, hf, below⟩ := below
    exact absurd below (absent (List.mem_map_of_mem hf))
  | record i j below =>
    rcases below with below | below
    · exact absurd below (absent List.mem_cons_self)
    · exact absurd below (absent (List.mem_cons_of_mem _ List.mem_cons_self))
  | union i j below =>
    obtain ⟨x, hx, below⟩ := below
    exact absurd below (absent hx)
  | intersection i j below =>
    rcases below with below | below
    · exact absurd below (absent List.mem_cons_self)
    · exact absurd below (absent (List.mem_cons_of_mem _ List.mem_cons_self))

theorem livesIn_probe {heap : Heap} (w : Wrapper) : w.probe.LivesIn heap :=
  everywhere_plain.mpr ⟨nofun, nofun⟩

theorem LivesIn.merged {heap : Heap} {i j : Ident} {fields more : List (String × Schema)}
    (left : LivesIn (.object i fields) heap) (right : LivesIn (.object j more) heap) :
    LivesIn (merged fields more) heap := by
  refine everywhere_object.mpr ⟨⟨nofun, nofun⟩, fun f hf => ?_⟩
  rcases mem_mergeFields hf with hf | hf
  · exact left.child (List.mem_map_of_mem hf)
  · exact right.child (List.mem_map_of_mem hf)

/-! ## The side that is left as it is -/

/-- **`Untouched heap u x x'`** — one tree of the heap, which `u` does not occur in. -/
structure Untouched (heap : Heap) (u x x' : Schema) : Prop where
  eq : x = x'
  lives : x'.LivesIn heap
  apart : ¬ Occurs u x'

theorem Untouched.correspondence {heap : Heap} {u : Schema} (choice : u.IsChoice) :
    Correspondence Eq (Untouched heap u) where
  layer := by
    rintro x x' ⟨rfl, lives, apart⟩
    exact .of_self (fun _ => rfl) fun c hc =>
      ⟨rfl, lives.child hc, fun below => apart (.child hc below)⟩
  probe w := ⟨rfl, livesIn_probe w, not_occurs_probe choice w⟩
  merged := by
    rintro i j k l fields fields' more more' ⟨same, lives, apart⟩ ⟨same', lives', apart'⟩
    cases same
    cases same'
    exact ⟨rfl, lives.merged lives', not_occurs_merged choice apart apart'⟩

/-! ## The side that is changed -/

/-- **`Edited heap u u' x x'`** — the tree `x` is the tree `x'` of the heap with `u'` in place of
`u`. -/
structure Edited (heap : Heap) (u u' x x' : Schema) : Prop where
  replaced : Replaced u u' x' x
  lives : x'.LivesIn heap

namespace Edited

variable {heap : Heap} {u u' x x' y y' : Schema}

/-- What stands below the choice is kept. -/
theorem self_of_mem {c : Schema} (lives : u.LivesIn heap) (hc : c ∈ u.children) :
    Edited heap u u' c c :=
  ⟨.kept (not_occurs_of_mem hc), lives.child hc⟩

theorem of_forall₂ {xs ys : List Schema} (lives : ∀ x ∈ xs, x.LivesIn heap)
    (h : List.Forall₂ (Replaced u u') xs ys) : List.Forall₂ (Edited heap u u') ys xs := by
  have both := (List.forall₂_and_left _ _).mpr ⟨lives, h⟩
  exact (both.imp fun _ _ pair => (⟨pair.2, pair.1⟩ : flip (Edited heap u u') _ _)).flip

/-- Where one node of the untouched side is found, nothing was changed. -/
theorem eq_of_untouched (hx : Untouched heap u x x') (hy : Edited heap u u' y y')
    (same : x' = y') : y = y' :=
  hy.replaced.eq_of_not_occurs (same ▸ hx.apart)

section Choice

variable (choice : u.IsChoice)
include choice

theorem fieldsAlike {i j : Ident} {fields fields' : List (String × Schema)}
    (h : Edited heap u u' (.object i fields) (.object j fields')) :
    FieldsAlike (Edited heap u u') fields fields' := by
  obtain ⟨replaced, lives⟩ := h
  cases replaced with
  | kept apart =>
    refine .of_types rfl (List.forall₂_same.mpr fun c hc => ?_)
    exact ⟨.kept fun below => apart (.child hc below), lives.child hc⟩
  | here => exact choice.elim
  | object _ _ _ names types => exact .of_types names.symm (of_forall₂ (fun _ => lives.child) types)

/-- Everywhere but at the choice itself, the two trees have the same layer. -/
theorem here_or_layer (h : Edited heap u u' x x') :
    (x = u' ∧ x' = u) ∨ Layer Eq (Edited heap u u') x x' := by
  obtain ⟨replaced, lives⟩ := h
  have part {c c' : Schema} (hc : c' ∈ x'.children) (h : Replaced u u' c' c) :
      Edited heap u u' c c' := ⟨h, lives.child hc⟩
  cases replaced with
  | here => exact .inl ⟨rfl, rfl⟩
  | kept apart =>
    right
    exact .of_self (fun _ => rfl) fun c hc => part hc (.kept fun below => apart (.child hc below))
  | wrap i j w _ inner => exact .inr (.wrap j i w (part (List.mem_singleton_self _) inner))
  | array i j _ element => exact .inr (.array j i (part (List.mem_singleton_self _) element))
  | tuple i j _ items => exact .inr (.tuple j i (of_forall₂ (fun _ => lives.child) items))
  | object i j below names types =>
    have alike := fieldsAlike choice ⟨.object i j below names types, lives⟩
    exact .inr (.object j i alike.fieldsMatch)
  | record i j _ key value =>
    exact .inr (.record j i (part List.mem_cons_self key)
      (part (List.mem_cons_of_mem _ List.mem_cons_self) value))
  | union i j _ options =>
    exact .inr (.union j i (.of_forall₂ (of_forall₂ (fun _ => lives.child) options)))
  | intersection i j _ left right =>
    exact .inr (.intersection j i (part List.mem_cons_self left)
      (part (List.mem_cons_of_mem _ List.mem_cons_self) right))

theorem merged {i j k l : Ident} {fields fields' more more' : List (String × Schema)}
    (left : Edited heap u u' (.object i fields) (.object j fields'))
    (right : Edited heap u u' (.object k more) (.object l more')) :
    Edited heap u u' (merged fields more) (merged fields' more') := by
  have both : FieldsAlike (Edited heap u u') (mergeFields fields more)
      (mergeFields fields' more') :=
    (left.fieldsAlike choice).mergeFields (right.fieldsAlike choice)
  refine ⟨?_, left.lives.merged right.lives⟩
  by_cases below : ∃ f ∈ mergeFields fields' more', Occurs u f.2
  · refine .object _ _ below both.names_eq.symm (List.Forall₂.flip ?_)
    exact both.types.imp fun _ _ edited => edited.replaced
  · -- The choice was in fields that are overridden, and the same object is made.
    have absent : ∀ f ∈ mergeFields fields' more', ¬ Occurs u f.2 := fun f hf occurs =>
      below ⟨f, hf, occurs⟩
    have same : mergeFields fields' more' = mergeFields fields more := by
      rw [← List.forall₂_eq_eq_eq]
      refine ((List.forall₂_and_left _ _).mpr ⟨absent, both.flip⟩).imp fun f g related => ?_
      obtain ⟨apart, name, edited⟩ := related
      exact Prod.ext name.symm (edited.replaced.eq_of_not_occurs apart).symm
    rw [Schema.merged, Schema.merged, ← same]
    exact .kept (not_occurs_object choice absent)

end Choice

/-- **With less to choose from, a source may be less.** -/
theorem narrowing (part : IsPart u' u) : Narrowing Eq (Edited heap u u') where
  within h := by
    rcases h.here_or_layer part.among.isChoice_right with ⟨rfl, rfl⟩ | layer
    · exact part.among.within (fun _ => rfl) fun c hc =>
        self_of_mem h.lives (part.among.children_subset hc)
    · exact layer.within
  listed h := by
    rcases h.here_or_layer part.among.isChoice_right with ⟨rfl, rfl⟩ | layer
    · exact part.listed_ne_nil
    · exact layer.listed.ne_nil
  single h literal one := by
    rcases h.here_or_layer part.among.isChoice_right with ⟨rfl, rfl⟩ | layer
    · exact part.length_listed literal one
    · exact (layer.length_listed_eq literal).trans one
  options h := by
    rcases h.here_or_layer part.among.isChoice_right with ⟨rfl, rfl⟩ | layer
    · exact part.options_ne_nil
    · exact layer.options.ne_nil
  lookup h := (h.fieldsAlike part.among.isChoice_right).lookup
  probe w := ⟨.kept (not_occurs_probe part.among.isChoice_right w), livesIn_probe w⟩
  merged left right := left.merged part.among.isChoice_right right

/-- **With more to choose from, a target may be more.** -/
theorem widening (among : Among u u') : Widening Eq (Edited heap u u') where
  within h := by
    rcases h.here_or_layer among.isChoice_left with ⟨rfl, rfl⟩ | layer
    · exact among.within (fun _ => rfl) fun c hc => self_of_mem h.lives hc
    · exact layer.within_flip
  partner h := (h.fieldsAlike among.isChoice_left).fieldsMatch.partner

end Edited

/-! ## What still conforms -/

variable {heap : Heap} {a a' b b' u u' : Schema} {n : Nat}

theorem assignable_of_among (among : Among u u') (livesA : a.LivesIn heap)
    (livesB : b.LivesIn heap) (apart : ¬ Occurs u a) (replaced : Replaced u u' b b')
    (h : Assignable n a b) : Assignable n a b' := by
  have sources : Narrowing Eq (Untouched heap u) :=
    (Untouched.correspondence among.isChoice_left).narrowing
  have source : Untouched heap u a a := ⟨rfl, livesA, apart⟩
  have target : Edited heap u u' b' b := ⟨replaced, livesB⟩
  refine assignable_of_subsumed holdAlike_eq sources (Edited.widening among) ?_ source target h
  intro x x' y y' hx hy same
  have one : x' = y' := hx.lives.here.eq_of_same hy.lives.here same
  rw [hx.eq, hy.eq_of_untouched hx one]
  exact same

theorem assignable_of_isPart (part : IsPart u' u) (livesA : a.LivesIn heap)
    (livesB : b.LivesIn heap) (apart : ¬ Occurs u b) (replaced : Replaced u u' a a')
    (h : Assignable n a b) : Assignable n a' b := by
  have targets : Widening Eq (Untouched heap u) :=
    (Untouched.correspondence part.among.isChoice_right).widening
  have source : Edited heap u u' a' a := ⟨replaced, livesA⟩
  have target : Untouched heap u b b := ⟨rfl, livesB, apart⟩
  refine assignable_of_subsumed holdAlike_eq (Edited.narrowing part) targets ?_ source target h
  intro x x' y y' hx hy same
  have one : y' = x' := (hx.lives.here.eq_of_same hy.lives.here same).symm
  rw [hy.eq, hx.eq_of_untouched hy one]
  exact same

end Schema

namespace Policy

open Schema

variable {a b : Schema}

/-- **More choice in the target and less in the source are no harm.**  Where a source conforms, it
conforms to the target with a choice replaced by one that has more to choose from, and it conforms
with a choice of its own replaced by one that has a part to choose from, in each case under the same
limit.  The choice may not occur on the other side.  The new comparison may be given up for lack of
room, which does not happen to built trees that are not too high or under a limit that is not too
high. -/
theorem conforms_of_replaced (stack : Stack) (deepest : Int) (trace : Bool) (heap : Heap)
    (livesA : a.LivesIn heap) (livesB : b.LivesIn heap)
    (h : ((upTo stack deepest trace).conforms a.value b.value).outcome = .ok true) :
    (∀ u u' b', Among u u' → ¬ Occurs u a → Replaced u u' b b' →
      (((upTo stack deepest trace).conforms a.value b'.value).outcome = .ok true ↔
          ¬ (upTo stack deepest trace).Overflows a.value b'.value) ∧
        (a.WellFormed →
          5 * (a.height + b'.height) + stack.most ≤ stack.whole ∨
              5 * (deepest + 1) + stack.most ≤ stack.whole →
            ¬ (upTo stack deepest trace).Overflows a.value b'.value)) ∧
    ∀ u u' a', IsPart u' u → ¬ Occurs u b → Replaced u u' a a' →
      (((upTo stack deepest trace).conforms a'.value b.value).outcome = .ok true ↔
          ¬ (upTo stack deepest trace).Overflows a'.value b.value) ∧
        (a'.WellFormed →
          5 * (a'.height + b.height) + stack.most ≤ stack.whole ∨
              5 * (deepest + 1) + stack.most ≤ stack.whole →
            ¬ (upTo stack deepest trace).Overflows a'.value b.value) := by
  have before : Assignable ((upTo stack deepest trace).levelsFrom 0) a b := assignable_of_conforms h
  constructor
  · intro u u' b' among apart replaced
    have after := assignable_of_among among livesA livesB apart replaced before
    exact ⟨conforms_iff_not_overflows after, not_overflows_of_bound⟩
  · intro u u' a' part apart replaced
    have after := assignable_of_isPart part livesA livesB apart replaced before
    exact ⟨conforms_iff_not_overflows after, not_overflows_of_bound⟩

/-- Two objects that are merged for the comparison, against an object.  The union in the target gets
an option that makes its field one that may be left out, and the literal in the source is left with
one value. -/
theorem choices_replaced_under_field :
    let plain (n : Nat) (sort : Plain) : Schema := .plain (.made n) sort
    let letters (n : Nat) (values : List Value) : Schema := .literal (.made n) values
    let source (n : Nat) (s : Schema) : Schema := .intersection (.made n)
      (.object (.made (n + 1)) [("k", s)]) (.object (.made 2) [("l", plain 3 .string)])
    let target (n : Nat) (s : Schema) : Schema := .object (.made n) [("k", s)]
    let union (n : Nat) (options : List Schema) : Schema := .union (.made n) options
    let a := source 0 (letters 4 [.text "p", .text "q"])
    let a' := source 10 (letters 12 [.text "q"])
    let b := target 5 (union 6 [plain 7 .string])
    let b' := target 13 (union 14 [plain 15 .undefined, plain 7 .string])
    ((upTo .standard 8 false).conforms a.value b.value).outcome = .ok true ∧
      ((upTo .standard 8 false).conforms a.value b'.value).outcome = .ok true ∧
      ((upTo .standard 8 false).conforms a'.value b.value).outcome = .ok true := by
  intro plain letters source target union a a' b b'
  let heap : Heap := .ofNodes [a, .object (.made 1) [("k", letters 4 [.text "p", .text "q"])],
    .object (.made 2) [("l", plain 3 .string)], plain 3 .string,
    letters 4 [.text "p", .text "q"], b, union 6 [plain 7 .string], plain 7 .string]
  have livesA : a.LivesIn heap := by
    simp [LivesIn, a, b, source, target, letters, plain, union, heap, Heap.Keeps, Heap.KeepsClass,
      Schema.id, listed, Heap.ofNodes]
  have livesB : b.LivesIn heap := by
    simp [LivesIn, a, b, source, target, letters, plain, union, heap, Heap.Keeps, Heap.KeepsClass,
      Schema.id, listed, Heap.ofNodes]
  have noUnion : Everywhere (fun s => s.kind? ≠ some .union) a := by
    simp [a, source, letters, plain, kind?, Plain.kind]
  have noLiteral : Everywhere (fun s => s.kind? ≠ some .literal) b := by
    simp [b, target, union, plain, kind?, Plain.kind]
  have noLiteral' : Everywhere (fun s => s.kind? ≠ some .literal)
      (.object (.made 2) [("l", plain 3 .string)]) := by
    simp [plain, kind?, Plain.kind]
  -- A choice stands in a field of its object, on either side.
  have field {i j : Ident} {u u' : Schema} :
      Replaced u u' (.object i [("k", u)]) (.object j [("k", u')]) :=
    .object _ _ ⟨_, List.mem_singleton_self _, .here⟩ rfl (.cons .here .nil)
  have answer : ((upTo .standard 8 false).conforms a.value b.value).outcome = .ok true := by decide +kernel
  obtain ⟨wider, narrower⟩ := conforms_of_replaced .standard 8 false heap livesA livesB answer
  have more := wider (union 6 [plain 7 .string]) _ b'
    (.union _ (.made 14) (List.subset_cons_self (plain 15 .undefined) _))
    (fun occurs => noUnion.of_occurs occurs rfl) field
  have less := narrower (letters 4 [.text "p", .text "q"]) _ a'
    (.literal (.made 12) _ (List.subset_cons_self _ [Value.text "q"]) (by simp) (by simp))
    (fun occurs => noLiteral.of_occurs occurs rfl)
    (.intersection _ _ (.inl (.child (List.mem_singleton_self _) .here)) field
      (.kept fun occurs => noLiteral'.of_occurs occurs rfl))
  have soundA : a.WellFormed := by
    simp [WellFormed, a, source, letters, plain, IsSound, PartsSound, Schema.id, Value.MayList,
      Value.isLiteral, Value.datum, Value.HasClass]
  have soundA' : a'.WellFormed := by
    simp [WellFormed, a', source, letters, plain, IsSound, PartsSound, Schema.id, Value.MayList,
      Value.isLiteral, Value.datum, Value.HasClass]
  exact ⟨answer, more.1.mpr (more.2 soundA (.inr (by decide))),
    less.1.mpr (less.2 soundA' (.inr (by decide)))⟩

end Policy

/-! ## An option that leads too far -/

namespace Schema

/-- Everything, as the only option of a union. -/
def topAlone : Schema := .union (.made 8) [.plain (.made 5) .unknown]

/-- The heap of this union, of the one with another option before it, and of tuples inside each
other. -/
def heapOfTops : Heap where
  node n :=
    if n % 3 < 2 then tuples 3 (n % 3) (n / 3)
    else (Heap.ofNodes [.plain (.made 5) .unknown, withTop (tuples 3 1 2000) false,
      topAlone]).node n
  cls _ := .base .object

end Schema

namespace Policy

open Schema

theorem conforms_topAlone (i : Nat) (s : Schema) :
    ((upTo .standard 100000 false).conforms (tuple (.made (i + 9)) [s]).value topAlone.value).outcome =
      .ok true := by
  rfl

/-- **An option that leads too far.**  A tree of tuples conforms to a union whose only option is
everything.  The union with another such tree as an option before it has more to choose from, but
the trees are compared first, and the comparison is given up. -/
theorem wider_union_given_up :
    let a := tuples 3 0 2000
    let b := topAlone
    let b' := withTop (tuples 3 1 2000) false
    a.WellFormed ∧ b.WellFormed ∧ b'.WellFormed ∧
      a.LivesIn heapOfTops ∧ b.LivesIn heapOfTops ∧ b'.LivesIn heapOfTops ∧
      Among b b' ∧ ¬ Occurs b a ∧ Replaced b b' b b' ∧
      ((upTo .standard 100000 false).conforms a.value b.value).outcome = .ok true ∧
      ((upTo .standard 100000 false).conforms a.value b'.value).outcome = .ok false := by
  intro a b b'
  have sound (first : Nat) : (tuples 3 first 2000).WellFormed := tuples_wellFormed 3 first 2000
  have lives {first : Nat} (h : first < 2) : (tuples 3 first 2000).LivesIn heapOfTops :=
    tuples_livesIn_of_mod (fun _ low => if_pos low) h 2000
  have top : heapOfTops.Keeps (.plain (.made 5) .unknown) := keeps_of_node (n := 5) rfl rfl rfl
  refine ⟨sound 0, ?_, ?_, lives (by decide), ?_, ?_, ?_, ?_, .here, conforms_topAlone 5991 _, ?_⟩
  · exact everywhere_union.mpr ⟨⟨⟨8, rfl⟩, List.cons_ne_nil _ _⟩,
      List.forall_mem_singleton.mpr (everywhere_plain.mpr ⟨⟨5, rfl⟩, trivial⟩)⟩
  · exact everywhere_withTop.mpr
      ⟨⟨⟨2, rfl⟩, List.cons_ne_nil _ _⟩, ⟨⟨5, rfl⟩, trivial⟩, sound 1⟩
  · exact everywhere_union.mpr ⟨keeps_of_node (n := 8) rfl rfl rfl,
      List.forall_mem_singleton.mpr (everywhere_plain.mpr top)⟩
  · exact everywhere_withTop.mpr
      ⟨keeps_of_node (n := 2) rfl rfl rfl, top, lives (by decide)⟩
  · exact .union _ _ (by simp)
  · intro occurs
    obtain ⟨k, made⟩ := (tuples_ids 3 0 2000).of_occurs occurs
    have eight : 8 = 3 * k + 0 := Ident.made.inj made
    omega
  · exact conforms_outcome_of_overflows withTop_overflows

end Policy

end Conformance
