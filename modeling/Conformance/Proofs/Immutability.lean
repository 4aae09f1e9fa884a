/-
# Conformance.Proofs.Immutability — nodes that were built stay as they are.

No step makes a card of the ledger wrong: it adds the cards of what it makes, and a program keeps
all of them (`Session.after_filed`).  A node that a builder, a constructor or a method made stores
nothing that can change.  So its card tells all that it stores, whatever is done afterwards, and an
assignment to it has nothing to change (`Session.validated_unchanged`).
-/
import Conformance.Proofs.Change

namespace Conformance

/-! ## Programs -/

namespace Expr

/-- The expression makes a node and checks what is given for its parts. -/
def IsValidating : Expr → Prop
  | .build _ _ | .construct _ _ | .call _ _ _ | .wrapped (_ + 1) _ _ => True
  | _ => False

/-- Such an expression gives a settled value. -/
theorem IsValidating.isSettled {e : Expr} {scope : Scope} {v : Value} {n m : Nat}
    (h : e.IsValidating) (value : e.eval scope n = .ok (v, m)) : v.IsSettled := by
  obtain ⟨vs, k, -, last⟩ := finish_of_eval value
  cases e with
  | build builder args =>
    exact (builder.apply_made Value.upheld_true fun _ _ => trivial).isSettled last
  | construct model args =>
    exact (Descriptor.construct_made Value.upheld_true model fun _ _ => trivial).isSettled last
  | call method self args =>
    obtain ⟨callee, j, -, last⟩ := Build.bind_eq_ok.mp last
    have any : callee.Holds fun _ => True := by cases callee <;> trivial
    exact (Callee.apply_made Value.upheld_true any fun _ _ => trivial).isSettled last
  | wrapped count wrap base =>
    cases count with
    | zero => cases h
    | succ count => exact (wrap.once_made Value.upheld_true trivial).isSettled last
  | _ => cases h

end Expr

namespace Session

/-- The session after all of the steps. -/
def after (s : Session) (steps : List Step) : Session :=
  ((s.runAll steps).getLast?.map Prod.fst).getD s

theorem after_cons (s : Session) (step : Step) (rest : List Step) :
    s.after (step :: rest) = (s.run step).1.after rest := by
  unfold after
  rw [runAll, List.getLast?_cons]
  cases ((s.run step).1.runAll rest).getLast? <;> rfl

/-- **`Builds s step v`** — the step succeeds, and on the way a validating expression gives the
value. -/
def Builds (s : Session) (step : Step) (v : Value) : Prop :=
  (∃ r n, step.perform s.scope s.next = .ok (r, n)) ∧
    ∃ e k m, Expr.EvaluatesAmong s.scope step.keeps s.next e k ∧ e.IsValidating ∧
      e.eval s.scope k = .ok (v, m)

/-- All that is bound is filed, and there are cards only for what has been made. -/
def Filed (s : Session) (l : Ledger) : Prop := s.scope.Filed l ∧ l.Below s.next

variable {s : Session} {l : Ledger}

/-- **`run_filed`** — a step keeps all cards and adds those of what it builds. -/
theorem run_filed (h : s.Filed l) (step : Step) :
    ∃ l', l.Grows l' ∧ (s.run step).1.Filed l' ∧ ∀ v, s.Builds step v → v.Filed l' := by
  unfold run
  split
  case h_1 scope' reply next performed =>
    obtain ⟨vs, k, all, changed⟩ := Step.change_of_perform performed
    obtain ⟨l₁, grows₁, below₁, filed, accounts⟩ :=
      Expr.evalAll_settles Value.upheld_filed (fun e _ => Expr.settles_filed s.scope e) h.1 h.2 all
    obtain ⟨l₂, grows₂, below₂, bound⟩ :=
      step.change_records (h.1.mono grows₁) filed k below₁ scope' next changed
    refine ⟨l₂, grows₁.trans grows₂, ⟨bound, below₂⟩, ?_⟩
    rintro v ⟨-, e, j, m, among, -, value⟩
    exact (accounts e j v m among value).mono grows₂
  case h_2 failure failed =>
    refine ⟨l, .refl l, h, ?_⟩
    rintro v ⟨⟨r, n, performed⟩, -⟩
    rw [failed] at performed
    cases performed

/-- **`after_filed`** — a program keeps all cards. -/
theorem after_filed (h : s.Filed l) (steps : List Step) :
    ∃ l', l.Grows l' ∧ (s.after steps).Filed l' := by
  induction steps generalizing s l with
  | nil => exact ⟨l, .refl l, h⟩
  | cons step rest ih =>
    obtain ⟨l₁, grows₁, filed, -⟩ := run_filed h step
    obtain ⟨l₂, grows₂, last⟩ := ih filed
    rw [after_cons]
    exact ⟨l₂, grows₁.trans grows₂, last⟩

theorem empty_filed : Session.empty.Filed fun _ => none :=
  ⟨List.forall_mem_nil _, fun _ _ h => by cases h⟩

theorem after_append (s : Session) (steps more : List Step) :
    s.after (steps ++ more) = (s.after steps).after more := by
  induction steps generalizing s with
  | nil => rfl
  | cons step rest ih => rw [List.cons_append, after_cons, after_cons, ih]

/-- A step that cannot succeed fails, and the session is as it was. -/
theorem run_eq_failed {step : Step}
    (h : ∀ r n, step.perform s.scope s.next ≠ .ok (r, n)) :
    ∃ failure, s.run step = (s, .failed failure) := by
  unfold run
  split
  case h_1 performed => exact absurd performed (h _ _)
  case h_2 failure failed => exact ⟨failure, rfl⟩

end Session

/-! ## Assignments to nodes -/

namespace Value

/-- An outline shows whether a value can change. -/
theorem isChangeable_outline (v : Value) : v.outline.isChangeable = v.isChangeable := by
  cases v <;> rfl

/-- What has the outlines of fixed parts cannot change either. -/
theorem isChangeable_of_outlines {parts parts' : List (Part × Value)}
    (same : outlines parts' = outlines parts) (fixed : ∀ p ∈ parts, p.2.IsFixed) :
    ∀ p ∈ parts', p.2.isChangeable = false := by
  intro p hp
  have shown : (p.1, p.2.outline) ∈ outlines parts := same ▸ List.mem_map_of_mem hp
  obtain ⟨q, hq, eq⟩ := List.mem_map.mp shown
  rw [← isChangeable_outline, ← (Prod.mk.inj eq).2, isChangeable_outline]
  exact (fixed q hq).isChangeable

/-- The value stands in another, at any depth. -/
inductive Holds : Value → Value → Prop where
  | self (v : Value) : Holds v v
  | inside {v w u : Value} : w ∈ v.contents → Holds w u → Holds v u

theorem Filed.of_holds {l : Ledger} {v u : Value} (h : v.Filed l) (holds : v.Holds u) :
    u.Filed l := by
  induction holds with
  | self => exact h
  | inside inner _ ih => exact ih (h.of_mem inner)

end Value

namespace Step

variable {scope : Scope} {id : Ident} {model : Model} {parts : List (Part × Value)}

/-- Of the names of a node only one that begins with an underscore can be assigned to, and then the
scope is as it was. -/
theorem assign_node_eq_ok {attr : String} {value : Value} {r : Scope} {n m : Nat}
    (h : assign scope (.node id model parts) attr value n = .ok (r, m)) :
    attr.startsWith "_" = true ∧ r = scope := by
  unfold assign at h
  dsimp only at h
  split at h
  · cases h
  · split at h
    case isTrue begins =>
      cases h
      exact ⟨begins, rfl⟩
    case isFalse => cases h

theorem perform_setAttribute {e value : Expr} {attr : String} {r : Scope} {reply : Reply}
    {n k m : Nat} (had : e.eval scope n = .ok (.node id model parts, k))
    (h : (Step.setAttribute e attr value).perform scope n = .ok ((r, reply), m)) :
    attr.startsWith "_" = true ∧ r = scope := by
  obtain ⟨v, k', first, rest⟩ := Build.bind_eq_ok.mp h
  obtain ⟨x, j, -, rest⟩ := Build.bind_eq_ok.mp rest
  obtain ⟨scope', i, assigned, last⟩ := Build.bind_eq_ok.mp rest
  rw [had] at first
  cases first
  cases last
  exact assign_node_eq_ok assigned

/-- A field is written only into a shape that can change. -/
theorem isChangeable_of_writeField {key value : Value} {r : Scope} {n m : Nat}
    (h : writeField scope (.node id model parts) key value n = .ok (r, m)) :
    ∃ p ∈ parts, p.2.isChangeable = true := by
  obtain ⟨shape, k, found, rest⟩ := Build.bind_eq_ok.mp h
  obtain ⟨written, j, put, -⟩ := Build.bind_eq_ok.mp rest
  have part : ∃ p ∈ parts, p.2 = shape := by
    cases stored : (Value.node id model parts).property? "shape" with
    | some w =>
      rw [Build.property, stored] at found
      cases found
      obtain ⟨p, member, rfl⟩ := Option.map_eq_some_iff.mp stored
      exact ⟨p, List.mem_of_find?_eq_some member, rfl⟩
    | none =>
      rw [Build.property, stored] at found
      cases found
  obtain ⟨p, hp, rfl⟩ := part
  refine ⟨p, hp, ?_⟩
  obtain ⟨id, entries, eq, -⟩ | ⟨id, items, place, eq, -⟩ :=
    putItem_eq_ok (Build.ofExcept_eq_ok.mp put).1
  · rw [eq]
    rfl
  · rw [eq]
    rfl

end Step

namespace Session

section Nodes

variable {s : Session} {step : Step} {v : Value} {e key value : Expr} {id : Ident} {model : Model}
  {parts : List (Part × Value)} {n : Nat}

theorem Builds.isSettled (built : s.Builds step v) : v.IsSettled := by
  obtain ⟨-, e, k, m, -, validating, value⟩ := built
  exact validating.isSettled value

/-- What was built in a step is on record after any further steps. -/
theorem Builds.filed_after {before : List Step}
    (built : (Session.empty.after before).Builds step v) (later : List Step) :
    ∃ l, (Session.empty.after (before ++ step :: later)).Filed l ∧ v.Filed l := by
  obtain ⟨l₀, -, start⟩ := after_filed empty_filed before
  obtain ⟨l₁, -, filed, cards⟩ := run_filed start step
  obtain ⟨l₂, grows, last⟩ := after_filed filed later
  rw [after_append, after_cons]
  exact ⟨l₂, last, (cards v built).mono grows⟩

/-- No assignment to an attribute of a node changes what is bound. -/
theorem scope_run_setAttribute (had : e.eval s.scope s.next = .ok (.node id model parts, n))
    (attr : String) : (s.run (.setAttribute e attr value)).1.scope = s.scope := by
  unfold run
  split
  case h_1 performed => exact (Step.perform_setAttribute had performed).2
  case h_2 => rfl

theorem run_setAttribute (had : e.eval s.scope s.next = .ok (.node id model parts, n))
    {attr : String} (plain : attr.startsWith "_" = false) :
    ∃ failure, s.run (.setAttribute e attr value) = (s, .failed failure) := by
  refine run_eq_failed fun r m performed => ?_
  rw [(Step.perform_setAttribute had performed).1] at plain
  cases plain

theorem run_setField (had : e.eval s.scope s.next = .ok (.node id model parts, n))
    (fixed : ∀ p ∈ parts, p.2.isChangeable = false) :
    ∃ failure, s.run (.setField e key value) = (s, .failed failure) := by
  refine run_eq_failed fun r m performed => ?_
  obtain ⟨v, k, first, rest⟩ := Build.bind_eq_ok.mp performed
  obtain ⟨y, j, -, rest⟩ := Build.bind_eq_ok.mp rest
  obtain ⟨x, i, -, rest⟩ := Build.bind_eq_ok.mp rest
  obtain ⟨scope', g, written, -⟩ := Build.bind_eq_ok.mp rest
  rw [had] at first
  cases first
  obtain ⟨p, hp, change⟩ := Step.isChangeable_of_writeField written
  rw [fixed p hp] at change
  cases change

end Nodes

/-- **`validated_unchanged`** — take a whole program, one of its steps, and a node that a builder, a
constructor or a method gave in that step.  The node stores nothing that can change.  After the
program, wherever the node stands in whatever can still be had, it has the model and stores the
parts that it had when it was built.  No assignment to an attribute of any node changes what is
bound, and unless the name begins with an underscore it fails and leaves the session as it was; so
does every assignment to an item of the shape of the node that was built. -/
theorem validated_unchanged {before : List Step} {step : Step} {id : Ident} {model : Model}
    {parts : List (Part × Value)}
    (built : (Session.empty.after before).Builds step (.node id model parts)) (later : List Step) :
    (∃ k, id = .made k) ∧ (∀ p ∈ parts, p.2.IsFixed) ∧
      let t := Session.empty.after (before ++ step :: later)
      (∀ (e : Expr) (v : Value) (n : Nat) (model' : Model) (parts' : List (Part × Value)),
        e.eval t.scope t.next = .ok (v, n) → v.Holds (.node id model' parts') →
          model' = model ∧ Value.outlines parts' = Value.outlines parts) ∧
      (∀ (e value : Expr) (attr : String) (i : Ident) (model' : Model)
        (parts' : List (Part × Value)) (n : Nat),
        e.eval t.scope t.next = .ok (.node i model' parts', n) →
          (t.run (.setAttribute e attr value)).1.scope = t.scope ∧
          (attr.startsWith "_" = false →
            ∃ failure, t.run (.setAttribute e attr value) = (t, .failed failure))) ∧
      ∀ (e key value : Expr) (model' : Model) (parts' : List (Part × Value)) (n : Nat),
        e.eval t.scope t.next = .ok (.node id model' parts', n) →
          ∃ failure, t.run (.setField e key value) = (t, .failed failure) := by
  obtain ⟨⟨k, rfl⟩, fixed⟩ := built.isSettled _ _ _ rfl
  refine ⟨⟨k, rfl⟩, fixed, ?_⟩
  intro t
  obtain ⟨l, ⟨bound, below⟩, filed⟩ : ∃ l, t.Filed l ∧ (Value.node (.made k) model parts).Filed l :=
    built.filed_after later
  -- Whatever is evaluated adds cards, so the card of the node is still the one it was built with.
  have unchanged (e : Expr) (v : Value) (n : Nat) (model' : Model) (parts' : List (Part × Value))
      (had : e.eval t.scope t.next = .ok (v, n)) (holds : v.Holds (.node (.made k) model' parts')) :
      model' = model ∧ Value.outlines parts' = Value.outlines parts := by
    obtain ⟨l', grows, -, hv⟩ := e.eval_records bound t.next below v n had
    have now := (hv.of_holds holds).here k rfl
    have built := grows k _ (filed.here k rfl)
    obtain ⟨-, same, stored⟩ := Value.node.inj (Option.some.inj (now.symm.trans built))
    exact ⟨same, stored⟩
  refine ⟨unchanged, fun e value attr i model' parts' n had => ?_, ?_⟩
  · exact ⟨scope_run_setAttribute had attr, run_setAttribute had⟩
  intro e key value model' parts' n had
  obtain ⟨-, stored⟩ := unchanged e _ n model' parts' had (.self _)
  exact run_setField had (Value.isChangeable_of_outlines stored fixed)

/-- A mapping goes into a node as it is and into another by a builder; then the first node gets a
further field. -/
theorem shared_mapping_grows_alone :
    let before : List Step :=
      [.bind "fields" (.dict [(.text "x", .build (.of .string) [])]) true,
        .bind "raw" (.assemble (.of .object) [("shape", .ref "fields")]) true]
    let step : Step := .bind "point" (.build (.of .object) [.ref "fields"]) true
    let later : List Step := [.setField (.ref "raw") (.text "y") (.build (.of .number) [])]
    let t := Session.empty.after (before ++ step :: later)
    ∃ id parts, (Session.empty.after before).Builds step (.node id (.of .object) parts) ∧
      (∀ p ∈ parts, p.2.IsFixed) ∧
      (∃ i x y, t.scope.find? "fields" = some (.dict i [x, y])) ∧
      (∃ parts', t.scope.find? "point" = some (.node id (.of .object) parts') ∧
        Value.outlines parts' = Value.outlines parts) ∧
      (∃ failure, t.run (.setAttribute (.ref "point") "shape" (.ref "fields")) =
        (t, .failed failure)) ∧
      ∃ failure, t.run (.setField (.ref "point") (.text "y") (.ref "raw")) =
        (t, .failed failure) := by
  intro before step later t
  have along {p q : Prop} (hp : p) (hq : p → q) : p ∧ q := ⟨hp, hq hp⟩
  refine ⟨_, _, along ⟨⟨_, _, rfl⟩, _, _, _, .head (.self _ _), trivial, rfl⟩ fun built => ?_⟩
  obtain ⟨-, fixed, unchanged, assignment, item⟩ := validated_unchanged built later
  refine ⟨fixed, ⟨_, _, _, rfl⟩, ⟨_, rfl, ?_⟩, ?_, ?_⟩
  · exact (unchanged (.ref "point") _ _ _ _ rfl (.self _)).2
  · exact (assignment (.ref "point") _ _ _ _ _ _ rfl).2 (by decide +kernel)
  · exact item (.ref "point") _ _ _ _ _ rfl

/-- A name that begins with an underscore can be assigned to. -/
theorem underscored_name_assigned :
    let s := Session.empty.after [.bind "n" (.build (.of .string) []) true]
    (∃ id next, (Expr.ref "n").eval s.scope s.next = .ok (.node id (.of .string) [], next)) ∧
      (s.run (.setAttribute (.ref "n") "_note" .null)).2 = .done := by
  intro s
  refine ⟨⟨_, _, rfl⟩, ?_⟩
  have begins : "_note".startsWith "_" = true := by decide +kernel
  have performed : (Step.setAttribute (.ref "n") "_note" .null).perform s.scope s.next =
      .ok ((s.scope, .done), s.next) := by
    refine Build.bind_eq_ok.mpr ⟨_, _, rfl, Build.bind_eq_ok.mpr ⟨_, _, rfl, ?_⟩⟩
    refine Build.bind_eq_ok.mpr ⟨s.scope, s.next, ?_, rfl⟩
    simp only [Step.assign, begins]
    rfl
  rw [run, performed]

end Session

end Conformance
