/-
# Conformance.Proofs.Change — what a step changes.

An object is changed by putting another of the same identity in its place, wherever it stands, and
only mappings, lists and objects with attributes are changed so.  The cards of a ledger do not speak
of what these hold, so all that was filed is filed as before (`Value.filed_replace`).

A step that binds a name or assigns something evaluates expressions first (`Step.keeps`) and then
changes the scope (`Step.change`); every other step leaves the scope as it is.  So what is bound
after a step is filed, in a ledger with all the cards from before.
-/
import Conformance.Proofs.Evaluation
import Conformance.Proofs.Fixed
import Conformance.Session

namespace Conformance

open Build (Records)

/-! ## Putting another object in the place of one -/

namespace Value

section Replace

variable {l : Ledger} {id : Ident} {new : Value}

theorem replaceItems_eq_map (items : List Value) :
    replaceItems id new items = items.map (replace id new) := by
  induction items with
  | nil => rfl
  | cons v rest ih => rw [replaceItems, ih, List.map_cons]

theorem replaceEntries_eq_map (es : List (Value × Value)) :
    replaceEntries id new es = es.map fun e => (replace id new e.1, replace id new e.2) := by
  induction es with
  | nil => rfl
  | cons e rest ih => rw [replaceEntries, replaceEntry, ih, List.map_cons]

theorem replaceNamed_eq_map (named : List (String × Value)) :
    replaceNamed id new named = named.map fun p => (p.1, replace id new p.2) := by
  induction named with
  | nil => rfl
  | cons p rest ih => rw [replaceNamed, replaceOneNamed, ih, List.map_cons]

theorem replaceParts_eq_map (parts : List (Part × Value)) :
    replaceParts id new parts = parts.map fun p => (p.1, replace id new p.2) := by
  induction parts with
  | nil => rfl
  | cons p rest ih => rw [replaceParts, replacePart, ih, List.map_cons]

/-- What is on record about a value that can change is which one it is. -/
theorem card_of_isChangeable {v : Value} (h : v.isChangeable = true) :
    v.card = v.reference ∧ v.outline = v.reference := by
  cases v with
  | list id items => exact ⟨rfl, rfl⟩
  | dict id entries => exact ⟨rfl, rfl⟩
  | lookalike id attributes => exact ⟨rfl, rfl⟩
  | _ => cases h

/-- The value is as it was for whoever refers to it. -/
def LooksAs (v w : Value) : Prop := v.reference = w.reference ∧ v.outline = w.outline

/-- What was put in the place of an object has its card. -/
theorem looksAs_of_same_key {v : Value} {i : Ident} (hnew : new.Filed l) (key : new.key? = some id)
    (change : new.isChangeable = true) (hv : v.Filed l) (key' : v.key? = some i)
    (change' : v.isChangeable = true) (same : i.same id = true) : new.LooksAs v := by
  obtain ⟨n, rfl, rfl⟩ := Ident.same_iff.mp same
  have cards : some new.card = some v.card := (hnew.here n key).symm.trans (hv.here n key')
  obtain ⟨card, outline⟩ := card_of_isChangeable change
  obtain ⟨card', outline'⟩ := card_of_isChangeable change'
  have references : new.reference = v.reference := by
    rw [← card, ← card']
    exact Option.some.inj cards
  exact ⟨references, by rw [outline, outline', references]⟩

/-- **`filed_replace`** — a value in which an object that can change is replaced by its new state is
filed as before, and is as it was for whoever refers to it. -/
theorem filed_replace (hnew : new.Filed l) (key : new.key? = some id)
    (change : new.isChangeable = true) {v : Value} (hv : v.Filed l) :
    (replace id new v).Filed l ∧ (replace id new v).LooksAs v := by
  -- By induction over what the value holds.  A part of a node is on record with what it holds, so
  -- the outline has to go along with the reference.
  induction hv with
  | @intro v here held ih =>
    have recorded : v.Filed l := .intro here held
    have looks {w : Value} (hw : w ∈ v.contents) : (replace id new w).LooksAs w := (ih w hw).2
    cases v with
    | list i items =>
      rw [replace]
      split
      case isTrue same =>
        exact ⟨hnew, looksAs_of_same_key hnew key change recorded rfl rfl same⟩
      case isFalse =>
        rw [replaceItems_eq_map]
        refine ⟨.intro here (List.forall_mem_map.mpr fun w hw => (ih w hw).1), rfl, rfl⟩
    | tuple i items =>
      rw [replace, replaceItems_eq_map]
      refine ⟨filed_tuple (List.forall_mem_map.mpr fun w hw => (ih w hw).1), rfl, ?_⟩
      refine congrArg (Value.tuple i) ?_
      rw [List.map_map]
      exact List.map_congr_left fun w hw => (looks hw).1
    | dict i entries =>
      have filed := forall_mem_keys_append_values.mp fun w hw => (ih w hw).1
      rw [replace]
      split
      case isTrue same =>
        exact ⟨hnew, looksAs_of_same_key hnew key change recorded rfl rfl same⟩
      case isFalse =>
        rw [replaceEntries_eq_map]
        refine ⟨.intro here (forall_mem_keys_append_values.mpr ?_), rfl, rfl⟩
        exact List.forall_mem_map.mpr filed
    | frozen entries =>
      have each := forall_mem_keys_append_values.mp fun w hw => ih w hw
      rw [replace, replaceEntries_eq_map]
      refine ⟨filed_frozen (List.forall_mem_map.mpr fun e he => ?_), rfl, ?_⟩
      · exact ⟨(each e he).1.1, (each e he).2.1⟩
      · refine congrArg Value.frozen ?_
        rw [List.map_map]
        exact List.map_congr_left fun e he => Prod.ext (each e he).1.2.1 (each e he).2.2.1
    | classTest i target =>
      exact ⟨filed_classTest (ih target List.mem_cons_self).1, rfl, rfl⟩
    | enumeration i name members =>
      rw [replace, replaceNamed_eq_map]
      refine ⟨filed_of_key_eq_none rfl (List.forall_mem_map.mpr ?_), rfl, rfl⟩
      exact List.forall_mem_map.mpr fun m hm => (ih m.2 (List.mem_map_of_mem hm)).1
    | member owner enumName name value =>
      refine ⟨filed_of_key_eq_none rfl (List.forall_mem_singleton.mpr ?_), rfl, rfl⟩
      exact (ih value List.mem_cons_self).1
    | lookalike i attributes =>
      rw [replace]
      split
      case isTrue same =>
        exact ⟨hnew, looksAs_of_same_key hnew key change recorded rfl rfl same⟩
      case isFalse =>
        rw [replaceNamed_eq_map]
        refine ⟨.intro here (List.forall_mem_map.mpr ?_), rfl, rfl⟩
        exact List.forall_mem_map.mpr fun m hm => (ih m.2 (List.mem_map_of_mem hm)).1
    | node i model parts =>
      rw [replace, replaceParts_eq_map]
      refine ⟨.intro (fun k made => ?_) (List.forall_mem_map.mpr ?_), rfl, rfl⟩
      · rw [here k made]
        refine congrArg (fun ps => some (Value.node i model ps)) ?_
        rw [outlines, outlines, List.map_map]
        refine List.map_congr_left fun p hp => Prod.ext rfl ?_
        exact (looks (List.mem_map_of_mem hp)).2.symm
      · exact List.forall_mem_map.mpr fun p hp => (ih p.2 (List.mem_map_of_mem hp)).1
    | _ => exact ⟨recorded, rfl, rfl⟩

end Replace

end Value

theorem Scope.Filed.replace {scope : Scope} {l : Ledger} {id : Ident} {new : Value}
    (bound : scope.Filed l) (hnew : new.Filed l) (key : new.key? = some id)
    (change : new.isChangeable = true) : (scope.replace id new).Filed l :=
  List.forall_mem_map.mpr fun p hp => (Value.filed_replace hnew key change (bound p hp)).1

theorem Scope.Filed.bind {scope : Scope} {l : Ledger} {v : Value} (bound : scope.Filed l)
    (hv : v.Filed l) (name : String) : (scope.bind name v).Filed l := by
  intro p hp
  rcases Schema.mem_putName hp with hp | rfl
  · exact bound p hp
  · exact hv

/-! ## Steps -/

theorem Build.Records.property {l : Ledger} {v : Value} (word : String) (hv : v.Filed l) :
    Records l (property v word) fun l' w => w.Filed l' := by
  unfold Build.property
  split
  case h_1 found => exact .pure ((Value.upheld_filed.lenient l).property hv found)
  case h_2 => exact .throw _

namespace Step

variable {scope : Scope} {l : Ledger}

theorem assign_records {target value : Value} (bound : scope.Filed l) (ht : target.Filed l)
    (hv : value.Filed l) (attr : String) :
    Records l (assign scope target attr value) fun l' scope' => scope'.Filed l' := by
  unfold assign
  split
  · split
    · exact .throw _
    · split
      · exact .pure bound
      · exact .throw _
  case h_2 id attributes =>
    -- The object with one more attribute stands in the ledger as before.
    refine .pure (bound.replace (.intro ht.here (List.forall_mem_map.mpr fun p hp => ?_)) rfl rfl)
    rcases Schema.mem_putName hp with hp | rfl
    · exact ht.of_mem (List.mem_map_of_mem hp)
    · exact hv
  · split
    · exact .throw _
    · exact .pure bound
  · exact .throw _
  · split
    · exact .throw _
    · exact .pure bound
  · split
    · exact .throw _
    · exact .pure bound
  · split
    · exact .pure bound
    · exact .throw _

/-- What an item is put into is a mapping or a list, and is the same one afterwards. -/
theorem putItem_eq_ok {shape key value written : Value}
    (h : putItem shape key value = .ok written) :
    (∃ id entries, shape = .dict id entries ∧ written = .dict id (Entries.put entries key value)) ∨
      ∃ id items place, shape = .list id items ∧ written = .list id (items.set place value) := by
  unfold putItem at h
  split at h
  case h_1 id entries =>
    split at h <;> cases h
    exact .inl ⟨id, entries, rfl, rfl⟩
  · cases h
  · cases h
  · split at h
    · cases h
    · split at h
      · split at h <;> cases h
        exact .inr ⟨_, _, _, rfl, rfl⟩
      · cases h

theorem putItem_filed {shape key value written : Value} (hs : shape.Filed l) (hk : key.Filed l)
    (hv : value.Filed l) (h : putItem shape key value = .ok written) :
    written.Filed l ∧ written.isChangeable = true ∧ written.key? = shape.ident? := by
  obtain ⟨id, entries, rfl, rfl⟩ | ⟨id, items, place, rfl, rfl⟩ := putItem_eq_ok h
  · have filed := Value.forall_mem_keys_append_values.mp fun w hw => hs.of_mem hw
    refine ⟨.intro hs.here ?_, rfl, rfl⟩
    exact Value.forall_mem_keys_append_values.mpr (Value.forall_put filed hk hv)
  · refine ⟨.intro hs.here fun w hw => ?_, rfl, rfl⟩
    rcases List.mem_or_eq_of_mem_set hw with hw | rfl
    · exact hs.of_mem hw
    · exact hv

theorem writeField_records {node key value : Value} (bound : scope.Filed l) (hn : node.Filed l)
    (hk : key.Filed l) (hv : value.Filed l) :
    Records l (writeField scope node key value) fun l' scope' => scope'.Filed l' := by
  refine .bind (.property "shape" hn) fun l' shape grows hs => ?_
  refine .read (fun written h => h) fun written h => ?_
  obtain ⟨filed, change, ident⟩ := putItem_filed hs (hk.mono grows) (hv.mono grows) h
  split
  case h_1 id found => exact .pure ((bound.mono grows).replace filed (ident.trans found) change)
  case h_2 => exact .pure (bound.mono grows)

end Step

section Unchanging

variable {scope : Scope} {l : Ledger}

theorem PolicyExpr.eval_records (policy : PolicyExpr) (bound : scope.Filed l) :
    Records l (policy.eval scope) fun _ _ => True := by
  have one {l' : Ledger} (bound : scope.Filed l') (usual : Value) (e : Option Expr) :
      Records l' (evalOr scope usual e) fun _ _ => True := by
    cases e with
    | none => exact .pure trivial
    | some e => exact (e.eval_records bound).mono fun _ _ _ _ => trivial
  exact .bind (one bound _ _) fun l' _ grows _ =>
    .bind (one (bound.mono grows) _ _) fun _ _ _ _ => .pure trivial

theorem SettingsSource.evalFields_records (args : List (String × Expr)) (bound : scope.Filed l) :
    Records l (evalFields scope args) fun _ _ => True :=
  .bind (Expr.evalNamed_records args bound) fun _ _ _ _ => .ofExcept .any

theorem SettingsSource.eval_records (source : SettingsSource) (w : Surroundings)
    (bound : scope.Filed l) : Records l (source.eval scope w) fun _ _ => True := by
  cases source with
  | fields args => exact .bind (evalFields_records args bound) fun _ _ _ _ => .pure trivial
  | environment base stem =>
    exact .bind (evalFields_records base bound) fun _ _ _ _ => .pure trivial
  | file path => exact .pure trivial
  | load path => exact .pure trivial
  | mapping base value =>
    exact .bind (evalFields_records base bound) fun l' _ grows _ =>
      .bind (value.eval_records (bound.mono grows)) fun _ _ _ _ => .pure trivial

theorem Step.judgeUnder_records (s : Settings) (records : List Record)
    (pair : Option (Expr × Expr)) (bound : scope.Filed l) :
    Records l (judgeUnder scope s records pair) fun _ _ => True := by
  cases pair with
  | none => exact .pure trivial
  | some pair =>
    refine .bind (.attempt (Expr.evalAll_records _ bound)) fun l' result _ _ => ?_
    split
    · dsimp only
      split <;> exact .pure trivial
    · exact .pure trivial
    · exact .pure trivial

theorem Step.performSettings_records (w : Workspace) (source : SettingsSource)
    (pair : Option (Expr × Expr)) (bound : scope.Filed l) :
    Records l (performSettings scope w source pair) fun _ _ => True := by
  refine .bind (.attempt (source.eval_records w.surroundings bound)) fun l' result grows _ => ?_
  split
  · exact .pure trivial
  · dsimp only
    split
    · exact .pure trivial
    · exact judgeUnder_records _ _ pair (bound.mono grows)

theorem KindName.assertMembers_records {collection : Value} {members : List Value}
    (hc : collection.Filed l) (h : ∀ m ∈ members, m.Filed l) :
    Records l (assertMembers collection members) fun _ _ => True := by
  induction members generalizing l with
  | nil => exact .pure trivial
  | cons member rest ih =>
    obtain ⟨hm, hrest⟩ := List.forall_mem_cons.mp h
    refine .bind (.property "value" hm) fun l' value grows _ => .read .any fun snake _ => ?_
    split
    · exact ih (hc.mono grows) fun m hm => (hrest m hm).mono grows
    · exact .bind (.property "__name__" (hc.mono grows)) fun l'' _ grows' _ =>
        .bind (.property "name" (hm.mono (grows.trans grows'))) fun _ _ _ _ => .throw _

theorem KindName.assertCollections_records {collections : List Value}
    (h : ∀ c ∈ collections, c.Filed l) :
    Records l (assertCollections collections) fun _ _ => True := by
  induction collections generalizing l with
  | nil => exact .pure trivial
  | cons collection rest ih =>
    obtain ⟨hc, hrest⟩ := List.forall_mem_cons.mp h
    refine .read ((Value.upheld_filed.lenient l).gather hc).mapError fun members hm => ?_
    refine .bind (assertMembers_records hc hm) fun l' _ grows _ => ?_
    exact ih fun c hc => (hrest c hc).mono grows

theorem KindName.factsOf_records {v : Value} (hv : v.Filed l) :
    Records l (factsOf v) fun _ _ => True := by
  unfold factsOf
  dsimp only
  split
  · exact .throw _
  · split
    · exact .pure trivial
    · exact .bind (.property "value" hv) fun _ _ _ _ => .read .any fun _ _ => .pure trivial

end Unchanging

namespace Step

/-- The expressions of a step that changes the scope.  What they make can be there afterwards; what
another step makes cannot. -/
def keeps : Step → List Expr
  | .bind _ value _ => [value]
  | .setAttribute node _ value => [node, value]
  | .setField node key value => [node, key, value]
  | _ => []

/-- **`change`** — the scope after a step, once those expressions have their values. -/
def change (scope : Scope) : Step → List Value → Build Scope
  | .bind name _ _, vs => pure (scope.bind name (vs.headD .null))
  | .setAttribute _ attr _, vs => assign scope (vs.headD .null) attr (vs.tail.headD .null)
  | .setField _ _ _, vs =>
    writeField scope (vs.headD .null) (vs.tail.headD .null) (vs.tail.tail.headD .null)
  | step, _ => do return (← step.perform scope).1

variable {scope : Scope} {l : Ledger}

theorem change_of_perform {step : Step} {scope' : Scope} {reply : Reply} {n m : Nat}
    (h : step.perform scope n = .ok ((scope', reply), m)) :
    ∃ vs k, Expr.evalAll scope step.keeps n = .ok (vs, k) ∧
      step.change scope vs k = .ok (scope', m) := by
  have all (e : Expr) {es : List Expr} {v : Value} {vs : List Value} {n k j : Nat}
      (he : e.eval scope n = .ok (v, k)) (hes : Expr.evalAll scope es k = .ok (vs, j)) :
      Expr.evalAll scope (e :: es) n = .ok (v :: vs, j) :=
    Build.bind_eq_ok.mpr ⟨v, k, he, Build.bind_eq_ok.mpr ⟨vs, j, hes, rfl⟩⟩
  have others (h' : step.keeps = []) (change : ∀ vs, step.change scope vs =
      (step.perform scope >>= fun r => pure r.1)) :
      ∃ vs k, Expr.evalAll scope step.keeps n = .ok (vs, k) ∧
        step.change scope vs k = .ok (scope', m) := by
    refine ⟨[], n, by rw [h']; rfl, ?_⟩
    rw [change]
    exact Build.bind_eq_ok.mpr ⟨_, m, h, rfl⟩
  cases step with
  | bind name value quiet =>
    obtain ⟨v, k, made, last⟩ := Build.bind_eq_ok.mp h
    cases last
    exact ⟨[v], m, all value made rfl, rfl⟩
  | setAttribute node attr value =>
    obtain ⟨v, k, first, rest⟩ := Build.bind_eq_ok.mp h
    obtain ⟨x, j, second, rest⟩ := Build.bind_eq_ok.mp rest
    obtain ⟨s, i, assigned, last⟩ := Build.bind_eq_ok.mp rest
    cases last
    exact ⟨[v, x], j, all node first (all value second rfl), assigned⟩
  | setField node key value =>
    obtain ⟨v, k, first, rest⟩ := Build.bind_eq_ok.mp h
    obtain ⟨y, j, second, rest⟩ := Build.bind_eq_ok.mp rest
    obtain ⟨x, i, third, rest⟩ := Build.bind_eq_ok.mp rest
    obtain ⟨s, g, written, last⟩ := Build.bind_eq_ok.mp rest
    cases last
    exact ⟨[v, y, x], i, all node first (all key second (all value third rfl)), written⟩
  | _ => exact others rfl fun _ => rfl

/-- The steps that leave the scope as it is. -/
theorem perform_records (step : Step) (bound : scope.Filed l) (quiet : step.keeps = []) :
    Records l (step.perform scope) fun _ r => r.1 = scope := by
  -- Most steps evaluate one or two expressions first.
  have one (e : Expr) {f : Value → Build (Scope × Reply)}
      (hf : ∀ l' v, scope.Filed l' → v.Filed l' → Records l' (f v) fun _ r => r.1 = scope) :
      Records l (e.eval scope >>= f) fun _ r => r.1 = scope :=
    .bind (e.eval_records bound) fun l' v grows hv => hf l' v (bound.mono grows) hv
  have two (a b : Expr) {f : Value → Value → Build (Scope × Reply)}
      (hf : ∀ l' v w, scope.Filed l' → Records l' (f v w) fun _ r => r.1 = scope) :
      Records l (a.eval scope >>= fun v => b.eval scope >>= f v) fun _ r => r.1 = scope :=
    one a fun l' v bound' _ => .bind (b.eval_records bound') fun l'' w grows _ =>
      hf l'' v w (bound'.mono grows)
  cases step with
  | bind name value quiet => cases quiet
  | setAttribute node attr value => cases quiet
  | setField node key value => cases quiet
  | check a b policy =>
    exact two a b fun l' _ _ bound' => .bind (policy.eval_records bound') fun _ _ _ _ =>
      .read .any fun _ _ => .pure rfl
  | both a b policy =>
    exact two a b fun l' _ _ bound' => .bind (policy.eval_records bound') fun _ _ _ _ => .pure rfl
  | ask rule a b depth policy =>
    exact two a b fun l' _ _ bound' => .bind (policy.eval_records bound') fun _ _ _ _ =>
      .read .any fun _ _ => .pure rfl
  | askAll a b => exact two a b fun _ _ _ _ => .pure rfl
  | inspect node => exact one node fun _ _ _ _ => .pure rfl
  | hasKind node kind => exact two node kind fun _ _ _ _ => .read .any fun _ _ => .pure rfl
  | sameValue a b signedZero => exact two a b fun _ _ _ _ => .pure rfl
  | classify value => exact one value fun _ _ _ _ => .pure rfl
  | kindName value what => exact one value fun _ _ _ _ => .pure rfl
  | kindFacts kind =>
    exact one kind fun _ _ _ hv => .bind (KindName.factsOf_records hv) fun _ _ _ _ => .pure rfl
  | checkNames collections =>
    exact .bind (Expr.evalAll_records collections bound) fun _ _ _ h =>
      .bind (KindName.assertCollections_records h) fun _ _ _ _ => .pure rfl
  | compare a b => exact two a b fun _ _ _ _ => .pure rfl
  | hashable node =>
    refine one node fun _ v _ _ => ?_
    split
    · exact .throw _
    · exact .pure rfl
  | setPolicyField attr value => exact one value fun _ _ _ _ => .throw _
  | test node value =>
    refine one node fun l' v bound' hv => ?_
    refine .bind (.property "predicate" hv) fun l₁ predicate grows₁ hp => ?_
    refine .bind (.property "label" (hv.mono grows₁)) fun l₂ label grows₂ _ => ?_
    have bound₂ := bound'.mono (grows₁.trans grows₂)
    split
    · exact .pure rfl
    · refine .bind (value.eval_records bound₂) fun l₃ w grows₃ hw => ?_
      have callable := hp.mono (grows₂.trans grows₃)
      exact .bind (Value.call_made Value.upheld_filed callable (List.forall_mem_singleton.mpr hw))
        fun _ _ _ _ => .pure rfl
  | tabulate catalog policy =>
    refine .bind (Expr.evalNamed_records catalog bound) fun l' _ grows _ => ?_
    refine .bind (policy.eval_records (bound.mono grows)) fun _ _ _ _ => ?_
    exact .read .any fun _ _ => .read .any fun _ _ => .pure rfl
  | settings workspace source pair =>
    exact .bind (performSettings_records workspace source pair bound) fun _ _ _ _ => .pure rfl

theorem change_records (step : Step) {vs : List Value} (bound : scope.Filed l)
    (h : ∀ v ∈ vs, v.Filed l) : Records l (step.change scope vs) fun l' s => s.Filed l' := by
  have others (quiet : step.keeps = []) :
      Records l (step.perform scope >>= fun r => pure r.1) fun l' s => s.Filed l' := by
    refine .bind (step.perform_records bound quiet) fun l' r grows eq => .pure ?_
    rw [eq]
    exact bound.mono grows
  have lenient := Value.upheld_filed.lenient l
  have tail : ∀ v ∈ vs.tail, v.Filed l := fun v hv => h v (List.mem_of_mem_tail hv)
  have last : ∀ v ∈ vs.tail.tail, v.Filed l := fun v hv => tail v (List.mem_of_mem_tail hv)
  cases step with
  | bind name value quiet => exact .pure (bound.bind (lenient.headD h) name)
  | setAttribute node attr value =>
    exact assign_records bound (lenient.headD h) (lenient.headD tail) attr
  | setField node key value =>
    exact writeField_records bound (lenient.headD h) (lenient.headD tail) (lenient.headD last)
  | _ => exact others rfl

end Step

end Conformance
