/-
# Conformance.Proofs.Trace — what a comparison reports is its decision tree.

With every decision reported, a comparison reports the pairs that it visits: one that is decided
after all those that were compared for it, and one that lies too deep by a warning.  `Visit` is the
tree of these pairs and `Policy.Visits` says which tree belongs to a comparison; it is the same
whether or not decisions are reported (`visits_of_outcomes`), as long as there is room for the
reports.  The records are its nodes in
postorder (`records_of_visits`), so whatever is compared for a pair stands before it, with nothing
less deep in between (`Visits.nests`).

That rules ask one question after the other is what makes this work: `Asks` lists the questions that
led to an answer, in order.

A comparison that is given up reports that at last, in place of a decision
(`given_up_at_last`).
-/
import Conformance.Proofs.Correspondence
import Conformance.Proofs.Room

namespace Conformance

/-! ## Warnings only -/

namespace Run

variable {α β : Type}

/-- **`hushed x`** — the run `x` with its warnings for records and nothing else. -/
def hushed (x : Run α) : Run α := ⟨x.records.filter fun r => r.level = .warning, x.outcome⟩

theorem hushed_bind (x : Run α) (f : α → Run β) :
    hushed (x >>= f) = hushed x >>= fun v => hushed (f v) := by
  obtain ⟨records, outcome⟩ := x
  cases outcome with
  | error e => rfl
  | ok v =>
    show (⟨(records ++ (f v).records).filter _, (f v).outcome⟩ : Run β) = _
    rw [List.filter_append]
    rfl

end Run

/-- An inquiry that holds its calls is hushed if its answers are. -/
theorem Inquiry.hushed {σ α : Type} {clear : Prop} {may : σ → Prop} {f : (σ → Run Bool) → Run α}
    {sub sub' : σ → Run Bool} (hf : Inquiry clear may f)
    (agree : ∀ q, may q → ¬ (sub q).Exhausted → sub' q = (sub q).hushed)
    (held : ¬ (f sub).Exhausted) : f sub' = (f sub).hushed := by
  refine hf.relates (R := fun x y => ¬ x.Exhausted → y = x.hushed)
    (T := fun x y => ¬ x.Exhausted → y = x.hushed) (fun _ _ => rfl) ?_ agree held
  intro x y f g first later held
  rw [Run.Exhausted, Run.error_bind, not_or, not_exists] at held
  rw [first held.1, Run.hushed_bind]
  exact Run.bind_congr_of_ok fun v answered => later v fun short => held.2 v ⟨answered, short⟩

namespace Policy

variable {stack : Stack} {deepest : Int} {n room : Nat} {depth : Int} {a b : Value}

theorem hushed_report {p : Policy} (d : Decision) :
    Run.hushed (Logged.note (p.report depth a b d) >>= fun _ => (pure d.verdict : Run Bool)) =
      pure d.verdict := by
  unfold report
  split <;> rfl

/-- **Reports of decisions change nothing else**, at any level, unless they take calls that are
missing. -/
theorem check_untraced
    (held : ¬ ((upTo stack deepest true).check n room depth a b).Exhausted) :
    (upTo stack deepest false).check n room depth a b =
      ((upTo stack deepest true).check n room depth a b).hushed := by
  -- By induction on the levels; the answers one level down are hushed.
  induction n generalizing room depth a b with
  | zero =>
    rw [check, check, exceeded_upTo, exceeded_upTo]
    split <;> rfl
  | succ n ih =>
    have space : (upTo stack deepest true).callsFor a b ≤ room :=
      Nat.le_of_not_lt fun short => held (check_of_short short)
    have less : (upTo stack deepest false).callsFor a b ≤ _ :=
      callsFor_le_callsFor (d := deepest) (fun _ => rfl : false = true → true = true)
    rw [check_succ, if_neg (by omega), Run.Exhausted, Run.error_bind, not_or] at held
    rw [check_succ, if_neg (by omega), check_succ, if_neg (by omega), Run.hushed_bind,
      (decision_inquires a b).hushed (fun q _ => ih) held.1]
    exact congrArg _ (funext fun d => (hushed_report d).symm)

/-- A comparison that is given up without reports of decisions is given up with them. -/
theorem overflows_of_untraced (h : (upTo stack deepest false).Overflows a b) :
    (upTo stack deepest true).Overflows a b := by
  by_contra held
  refine held ((outcome_check_eq 0 ?_ (Nat.le_refl _) held).symm.trans h)
  exact fun _ => rfl

theorem conforms_untraced (held : ¬ (upTo stack deepest true).Overflows a b) :
    (upTo stack deepest false).conforms a b =
      ((upTo stack deepest true).conforms a b).hushed := by
  rw [conforms_of_not_overflows held, conforms_of_not_overflows (mt overflows_of_untraced held)]
  exact check_untraced held

end Policy

/-! ## Questions in order -/

/-- **`Asks f sub qs`** — given the answers `sub`, the computation `f` asks the questions `qs`, in
this order, and gets an answer to each.  Whatever is reported on the way to the same answers, `f`
reports it question by question, and nothing else. -/
structure Asks {σ α : Type} (f : (σ → Run Bool) → Run α) (sub : σ → Run Bool) (qs : List σ) :
    Prop where
  answered : ∀ q ∈ qs, ∃ v, (sub q).outcome = .ok v
  follows : ∀ sub' : σ → Run Bool, (∀ q ∈ qs, (sub' q).outcome = (sub q).outcome) →
    f sub' = ⟨qs.flatMap fun q => (sub' q).records, (f sub).outcome⟩

namespace Asks

variable {σ α : Type} {f : (σ → Run Bool) → Run α} {sub sub' : σ → Run Bool} {qs : List σ}

/-- What is asked depends on the answers only, not on what they report. -/
theorem of_outcomes (h : Asks f sub qs)
    (same : ∀ q ∈ qs, (sub' q).outcome = (sub q).outcome) : Asks f sub' qs := by
  have outcome : (f sub').outcome = (f sub).outcome := by
    rw [h.follows sub' same]
  refine ⟨fun q hq => ?_, fun sub'' agree => ?_⟩
  · rw [same q hq]
    exact h.answered q hq
  · rw [outcome]
    exact h.follows sub'' fun q hq => (agree q hq).trans (same q hq)

/-- The questions are determined: they can be told from what is reported for them. -/
theorem unique {f : (Question → Run Bool) → Run α} {sub : Question → Run Bool}
    {qs qs' : List Question} (h : Asks f sub qs) (h' : Asks f sub qs') : qs = qs' := by
  let marks (q : Question) : List Record :=
    [.ignoredDepth q.2.1, .ignoredDepth q.2.2, .decided 0 "" "" true q.1]
  have told := h.follows (fun q => ⟨marks q, (sub q).outcome⟩) fun _ _ => rfl
  rw [h'.follows (fun q => ⟨marks q, (sub q).outcome⟩) fun _ _ => rfl] at told
  have same : qs'.flatMap marks = qs.flatMap marks := congrArg Logged.records told
  clear h h' told
  induction qs generalizing qs' with
  | nil =>
    cases qs' with
    | nil => rfl
    | cons q rest => cases same
  | cons q rest ih =>
    cases qs' with
    | nil => cases same
    | cons q' rest' =>
      obtain ⟨r, x, y⟩ := q
      obtain ⟨r', x', y'⟩ := q'
      rw [List.flatMap_cons, List.flatMap_cons] at same
      obtain ⟨first, later⟩ := List.append_inj same rfl
      cases first
      rw [ih later]

end Asks

/-- An inquiry that comes to an answer has asked its questions in order. -/
theorem Inquiry.exists_asks {σ α : Type} {clear : Prop} {may : σ → Prop}
    {f : (σ → Run Bool) → Run α} {sub : σ → Run Bool} {r : α} (hf : Inquiry clear may f) (h : (f sub).outcome = .ok r) :
    ∃ qs, Asks f sub qs := by
  induction hf with
  | answer x reads => exact ⟨[], by simp, fun _ _ => rfl⟩
  | ask q next _ _ ih =>
    change (sub q >>= fun v => next v sub).outcome = .ok r at h
    cases answer : (sub q).outcome with
    | error e =>
      have broken : (sub q >>= fun v => next v sub).outcome = .error e :=
        Run.error_bind.mpr (.inl answer)
      rw [h] at broken
      cases broken
    | ok v =>
      -- The first question, and then those that its answer leads to.
      have goesOn {sub' : σ → Run Bool} (one : (sub' q).outcome = .ok v) :
          (sub' q >>= fun v => next v sub') =
            ⟨(sub' q).records ++ (next v sub').records, (next v sub').outcome⟩ := by
        show Logged.andThen _ _ = _
        rw [Logged.andThen, one]
      rw [goesOn answer] at h
      obtain ⟨qs, asks⟩ := ih v h
      refine ⟨q :: qs, List.forall_mem_cons.mpr ⟨⟨v, answer⟩, asks.answered⟩, ?_⟩
      intro sub' agree
      obtain ⟨one, rest⟩ := List.forall_mem_cons.mp agree
      show (sub' q >>= fun v => next v sub') = ⟨_, (sub q >>= fun v => next v sub).outcome⟩
      rw [goesOn answer, goesOn (one.trans answer), asks.follows sub' rest, List.flatMap_cons]

/-! ## The decision tree -/

/-- **`Visit`** — a pair that was visited at a depth: decided, after the pairs that were compared
for it, or cut off because it lay too deep. -/
inductive Visit where
  | decided (depth : Int) (source target : Value) (decision : Decision) (spawned : List Visit)
  | cutOff (depth : Int) (source target : Value)

namespace Visit

/-- The depth of a visit. -/
def depth : Visit → Int
  | .decided depth _ _ _ _ | .cutOff depth _ _ => depth

/-- The visits that were made for this one, in order. -/
def spawned : Visit → List Visit
  | .decided _ _ _ _ spawned => spawned
  | .cutOff _ _ _ => []

/-- Did the pair lie too deep? -/
def isCutOff : Visit → Bool
  | .decided _ _ _ _ _ => false
  | .cutOff _ _ _ => true

/-- How a visit is reported, given the depth limit as records show it. -/
def record (limit : Except Fault Int) : Visit → Record
  | .decided depth source target d _ =>
    .decided depth source.label target.label d.verdict d.rule
  | .cutOff _ source target => .depthExceeded limit source.label target.label

mutual
/-- **`postorder`** — the visits of a tree, each after those that were made for it. -/
def postorder : Visit → List Visit
  | .decided depth source target d spawned =>
    postorderAll spawned ++ [.decided depth source target d spawned]
  | .cutOff depth source target => [.cutOff depth source target]
termination_by structural t => t

/-- The visits of several trees. -/
def postorderAll : List Visit → List Visit
  | [] => []
  | t :: rest => postorder t ++ postorderAll rest
termination_by structural ts => ts
end

theorem postorderAll_eq (ts : List Visit) : postorderAll ts = ts.flatMap postorder := by
  induction ts with
  | nil => rfl
  | cons t rest ih => rw [postorderAll, ih, List.flatMap_cons]

theorem postorder_eq (t : Visit) : t.postorder = t.spawned.flatMap postorder ++ [t] := by
  cases t with
  | decided depth source target d spawned => rw [postorder, postorderAll_eq]; rfl
  | cutOff depth source target => rfl

/-- **`Nests visits`** — every visit but the last is followed by the one that it was made for, one
level up, with nothing less deep in between. -/
def Nests (visits : List Visit) : Prop :=
  ∀ before t after, visits = before ++ t :: after → after ≠ [] →
    ∃ between parent later, after = between ++ parent :: later ∧
      (∀ m ∈ between, t.depth ≤ m.depth) ∧ t.depth = parent.depth + 1 ∧ t ∈ parent.spawned

end Visit

namespace Policy

/-- The comparison one level down, for the questions of a pair. -/
def below (p : Policy) (n room : Nat) (depth : Int) (q : Question) : Run Bool :=
  p.check n (room - q.1.held) (depth + 1) q.2.1 q.2.2

/-- **`Visits`** — the decision tree of a comparison with so many levels and so much room left: a
pair is decided after the pairs that the table asks about, in order, and cut off where no level is
left. -/
def Visits (p : Policy) : Nat → Nat → Int → Value → Value → Visit → Prop
  | 0, _, depth, a, b, t => t = .cutOff depth a b
  | n + 1, room, depth, a, b, t =>
    ∃ d qs spawned, t = .decided depth a b d spawned ∧
      (decision a b (p.below n room depth)).outcome = .ok d ∧
      Asks (decision a b) (p.below n room depth) qs ∧
      List.Forall₂ (fun q s => p.Visits n (room - q.1.held) (depth + 1) q.2.1 q.2.2 s) qs spawned

variable {p p' : Policy} {n room : Nat} {depth : Int} {a b : Value} {t : Visit}

/-- A comparison that answers has decided its pair. -/
theorem decision_of_check {v : Bool} (h : (p.check (n + 1) room depth a b).outcome = .ok v) :
    ∃ d, d.verdict = v ∧ (decision a b (p.below n room depth)).outcome = .ok d ∧
      (p.check (n + 1) room depth a b).records =
        (decision a b (p.below n room depth)).records ++ p.report depth a b d := by
  rw [check_succ] at h ⊢
  split at h
  · cases h
  · rename_i space
    rw [if_neg space]
    show ∃ d, _ ∧ _ ∧ (Logged.andThen (decision a b (p.below n room depth)) _).records = _
    change (Logged.andThen (decision a b (p.below n room depth)) _).outcome = _ at h
    cases decided : (decision a b (p.below n room depth)).outcome with
    | error e =>
      rw [Logged.andThen, decided] at h
      cases h
    | ok d =>
      rw [Logged.andThen, decided] at h ⊢
      cases h
      refine ⟨d, rfl, rfl, ?_⟩
      show _ ++ (p.report depth a b d ++ []) = _
      rw [List.append_nil]

/-- **A comparison that answers has a decision tree.** -/
theorem exists_visits {v : Bool} (h : (p.check n room depth a b).outcome = .ok v) :
    ∃ t, p.Visits n room depth a b t := by
  induction n generalizing room depth a b v with
  | zero => exact ⟨_, rfl⟩
  | succ n ih =>
    obtain ⟨d, -, decided, -⟩ := decision_of_check h
    obtain ⟨qs, asks⟩ := (decision_inquires a b).exists_asks decided
    -- Every question got an answer, so there is a tree for it.
    have trees : ∃ spawned, List.Forall₂
        (fun q s => p.Visits n (room - q.1.held) (depth + 1) q.2.1 q.2.2 s) qs spawned := by
      have answered := asks.answered
      clear asks
      induction qs with
      | nil => exact ⟨[], .nil⟩
      | cons q rest ihq =>
        obtain ⟨⟨w, answer⟩, later⟩ := List.forall_mem_cons.mp answered
        obtain ⟨s, visits⟩ := ih answer
        obtain ⟨spawned, trees⟩ := ihq later
        exact ⟨s :: spawned, .cons visits trees⟩
    obtain ⟨spawned, trees⟩ := trees
    exact ⟨_, d, qs, spawned, rfl, decided, asks, trees⟩

/-- A comparison that answers wherever another one does, and the same, has the same decision tree. -/
theorem visits_of_outcomes
    (same : ∀ n room depth a b v, (p.check n room depth a b).outcome = .ok v →
      (p'.check n room depth a b).outcome = .ok v)
    (h : p.Visits n room depth a b t) : p'.Visits n room depth a b t := by
  induction n generalizing room depth a b t with
  | zero => exact h
  | succ n ih =>
    obtain ⟨d, qs, spawned, rfl, decided, asks, trees⟩ := h
    have agree (q : Question) (hq : q ∈ qs) :
        (p'.below n room depth q).outcome = (p.below n room depth q).outcome := by
      obtain ⟨v, answer⟩ := asks.answered q hq
      exact (same _ _ _ _ _ v answer).trans answer.symm
    refine ⟨d, qs, spawned, rfl, ?_, asks.of_outcomes agree, trees.imp fun _ _ => ih⟩
    rw [asks.follows (p'.below n room depth) agree]
    exact decided

namespace Visits

/-- The tree belongs to the comparison alone. -/
theorem unique {t' : Visit} (h : p.Visits n room depth a b t) (h' : p.Visits n room depth a b t') :
    t = t' := by
  induction n generalizing room depth a b t t' with
  | zero => exact h.trans h'.symm
  | succ n ih =>
    obtain ⟨d, qs, spawned, rfl, decided, asks, trees⟩ := h
    obtain ⟨d', qs', spawned', rfl, decided', asks', trees'⟩ := h'
    cases decided.symm.trans decided'
    cases asks.unique asks'
    have same : spawned = spawned' := by
      clear decided decided' asks asks'
      induction trees generalizing spawned' with
      | nil =>
        cases trees'
        rfl
      | cons head _ ihs =>
        cases trees' with
        | cons head' tail' => rw [ih head head', ihs _ tail']
    rw [same]

theorem depth_eq (h : p.Visits n room depth a b t) : t.depth = depth := by
  cases n with
  | zero =>
    cases h
    rfl
  | succ n =>
    obtain ⟨d, qs, spawned, rfl, -⟩ := h
    rfl

/-- The visits that are made for a pair are those of pairs one level down. -/
theorem exists_of_mem_spawned (h : p.Visits (n + 1) room depth a b t) {s : Visit}
    (hs : s ∈ t.spawned) :
    ∃ room x y, p.Visits n room (depth + 1) x y s := by
  obtain ⟨d, qs, spawned, rfl, -, -, trees⟩ := h
  obtain ⟨q, -, visits⟩ := (Partners.of_forall₂ trees).right s hs
  exact ⟨_, _, _, visits⟩

/-- Pairs are cut off at the depth for which no level is left, and decided above it. -/
theorem depths (h : p.Visits n room depth a b t) {s : Visit} (hs : s ∈ t.postorder) :
    depth ≤ s.depth ∧ if s.isCutOff then s.depth = depth + n else s.depth < depth + n := by
  induction n generalizing room depth a b t with
  | zero =>
    cases h
    cases List.mem_singleton.mp hs
    show depth ≤ depth ∧ depth = depth + (0 : Nat)
    omega
  | succ n ih =>
    rw [Visit.postorder_eq, List.mem_append, List.mem_flatMap, List.mem_singleton] at hs
    rcases hs with ⟨c, hc, hs⟩ | rfl
    · obtain ⟨room, x, y, visits⟩ := h.exists_of_mem_spawned hc
      obtain ⟨deeper, reach⟩ := ih visits hs
      refine ⟨by omega, ?_⟩
      split at reach
      · rw [if_pos ‹_›]
        omega
      · rw [if_neg ‹_›]
        omega
    · obtain ⟨d, qs, spawned, rfl, -⟩ := h
      show depth ≤ depth ∧ depth < depth + (n + 1 : Nat)
      omega

/-- A member of lists that stand one after the other is a member of one of them. -/
theorem exists_of_flatMap {α β : Type} {g : α → List β} {l : List α} {before after : List β} {x : β}
    (h : l.flatMap g = before ++ x :: after) :
    ∃ c ∈ l, ∃ before' after' later, g c = before' ++ x :: after' ∧ after = after' ++ later ∧
      ∀ y ∈ later, ∃ d ∈ l, y ∈ g d := by
  induction l generalizing before with
  | nil => simp at h
  | cons c rest ih =>
    have goesOn {before : List β} (h : rest.flatMap g = before ++ x :: after) :
        ∃ d ∈ c :: rest, ∃ before' after' later, g d = before' ++ x :: after' ∧
          after = after' ++ later ∧ ∀ y ∈ later, ∃ d ∈ c :: rest, y ∈ g d := by
      obtain ⟨d, hd, before', after', later, here, split, others⟩ := ih h
      refine ⟨d, List.mem_cons_of_mem c hd, before', after', later, here, split, fun y hy => ?_⟩
      obtain ⟨e, he, hy⟩ := others y hy
      exact ⟨e, List.mem_cons_of_mem c he, hy⟩
    rw [List.flatMap_cons, List.append_eq_append_iff] at h
    rcases h with ⟨middle, -, rest_eq⟩ | ⟨middle, here, split⟩
    · exact goesOn rest_eq
    · cases middle with
      | nil =>
        have whole : rest.flatMap g = [] ++ x :: after := split.symm
        exact goesOn whole
      | cons y middle =>
        obtain ⟨rfl, after_eq⟩ := List.cons.inj split
        refine ⟨c, List.mem_cons_self, before, middle, rest.flatMap g, here, after_eq, ?_⟩
        intro y hy
        obtain ⟨d, hd, hy⟩ := List.mem_flatMap.mp hy
        exact ⟨d, List.mem_cons_of_mem c hd, hy⟩

/-- **What is compared for a pair stands before it**, with nothing less deep in between. -/
theorem nests (h : p.Visits n room depth a b t) : Visit.Nests t.postorder := by
  induction n generalizing room depth a b t with
  | zero =>
    cases h
    intro before s after split more
    rw [Visit.postorder, List.singleton_eq_append_iff] at split
    simp_all
  | succ n ih =>
    intro before s after split more
    rw [Visit.postorder_eq] at split
    -- The pair itself comes last, so the visit is one of those that were made for it.
    obtain ⟨rest, last, rfl⟩ := (List.eq_nil_or_concat' after).resolve_left more
    rw [← List.cons_append, ← List.append_assoc] at split
    obtain ⟨spawned, one⟩ := List.append_inj' split rfl
    cases one
    obtain ⟨c, hc, before', after', later, here, rfl, others⟩ := exists_of_flatMap spawned
    obtain ⟨room, x, y, visits⟩ := h.exists_of_mem_spawned hc
    cases after' with
    | nil =>
      -- It is the last of its tree, hence one that was made for the pair itself.
      rw [Visit.postorder_eq] at here
      cases (List.append_inj' here rfl).2
      refine ⟨later, t, [], rfl, fun m hm => ?_, ?_, hc⟩
      · obtain ⟨d, hd, hm⟩ := others m hm
        obtain ⟨room', x', y', visits'⟩ := h.exists_of_mem_spawned hd
        rw [visits.depth_eq]
        exact (visits'.depths hm).1
      · rw [visits.depth_eq, h.depth_eq]
    | cons m rest =>
      obtain ⟨between, parent, further, rest_eq, deep, up, made⟩ :=
        ih visits before' s (m :: rest) here (List.cons_ne_nil _ _)
      refine ⟨between, parent, further ++ later ++ [t], ?_, deep, up, made⟩
      rw [rest_eq]
      simp

end Visits

/-! ## The records -/

variable {stack : Stack} {deepest : Int}

theorem records_exceeded {v : Bool}
    (h : ((upTo stack deepest true).exceeded room a b).outcome = .ok v) :
    ((upTo stack deepest true).exceeded room a b).records =
      [.depthExceeded (Limit.ofInt deepest).shown a.label b.label] := by
  rw [exceeded_upTo] at h ⊢
  split at h
  · cases h
  · rename_i space
    rw [if_neg space]

/-- **The records are the decision tree in postorder**, one for each visit. -/
theorem records_of_visits {v : Bool} (h : (upTo stack deepest true).Visits n room depth a b t)
    (answer : ((upTo stack deepest true).check n room depth a b).outcome = .ok v) :
    ((upTo stack deepest true).check n room depth a b).records =
      t.postorder.map (Visit.record (Limit.ofInt deepest).shown) := by
  induction n generalizing room depth a b t v with
  | zero =>
    cases h
    exact records_exceeded answer
  | succ n ih =>
    obtain ⟨d, qs, spawned, rfl, decided, asks, trees⟩ := h
    obtain ⟨d', -, decided', records⟩ := decision_of_check answer
    cases decided.symm.trans decided'
    have asked := asks.follows _ fun _ _ => rfl
    -- What is reported for the questions are the trees below, one after the other.
    have reported : (qs.flatMap fun q => ((upTo stack deepest true).below n room depth q).records) =
        (spawned.flatMap Visit.postorder).map (Visit.record (Limit.ofInt deepest).shown) := by
      have answered := asks.answered
      clear asks asked decided decided' records answer
      induction trees with
      | nil => rfl
      | cons visits _ ihs =>
        obtain ⟨⟨w, one⟩, later⟩ := List.forall_mem_cons.mp answered
        rw [List.flatMap_cons, List.flatMap_cons, List.map_append, ihs later]
        exact congrArg (· ++ _) (ih visits one)
    rw [records, asked, Visit.postorder_eq, List.map_append]
    exact congrArg (· ++ _) reported

/-- The last record of a comparison that answers is its decision. -/
theorem last_record {v : Bool}
    (answer : ((upTo stack deepest true).check (n + 1) room depth a b).outcome = .ok v) :
    ∃ rule, ((upTo stack deepest true).check (n + 1) room depth a b).records.getLast? =
      some (.decided depth a.label b.label v rule) := by
  obtain ⟨d, rfl, -, records⟩ := decision_of_check answer
  rw [records]
  exact ⟨d.rule, List.getLast?_concat⟩

open Schema

/-- **The trace is the decision tree in postorder, and does not influence it.**  Unless the
comparison is given up for lack of room, the outcome and the warnings are the same with decisions
reported or not; there is one decision tree in either case, and the reports are its visits, each
after those that were made for it: warnings for the pairs one level below the limit, decisions for
those above, and at last the decision about the pair itself.  A comparison that is given up without
reports is given up with them.  None is for built trees that are not too high, nor under a limit
that is not too high. -/
theorem trace_is_postorder (stack : Stack) (a b : Schema) (deepest : Int) (nonneg : 0 ≤ deepest) :
    let run (trace : Bool) : Run Bool := (upTo stack deepest trace).conforms a.value b.value
    (¬ (upTo stack deepest true).Overflows a.value b.value →
      (run true).outcome = (run false).outcome ∧
      (run false).records = (run true).records.filter (fun r => r.level = .warning) ∧
      ∃ v rule tree, (run true).outcome = .ok v ∧
        (∀ trace other, (upTo stack deepest trace).Visits
          ((upTo stack deepest trace).levelsFrom 0) stack.whole 0 a.value b.value other ↔
            other = tree) ∧
        (run true).records = tree.postorder.map (Visit.record (Limit.ofInt deepest).shown) ∧
        (∀ t ∈ tree.postorder,
          0 ≤ t.depth ∧ if t.isCutOff then t.depth = deepest + 1 else t.depth ≤ deepest) ∧
        (run true).records.getLast? =
          some (.decided 0 a.value.label b.value.label v rule) ∧
        Visit.Nests tree.postorder) ∧
    ((upTo stack deepest false).Overflows a.value b.value →
      (upTo stack deepest true).Overflows a.value b.value) ∧
    (a.WellFormed →
      5 * (a.height + b.height) + stack.most ≤ stack.whole ∨
          5 * (deepest + 1) + stack.most ≤ stack.whole →
        ¬ (upTo stack deepest true).Overflows a.value b.value) := by
  intro run
  refine ⟨fun held => ?_, overflows_of_untraced, not_overflows_of_bound⟩
  have hushed : run false = (run true).hushed := conforms_untraced held
  have levels (trace : Bool) : (upTo stack deepest trace).levelsFrom 0 = deepest.toNat + 1 :=
    levelsFrom_eq_succ nonneg
  have whole : run true = (upTo stack deepest true).check (deepest.toNat + 1) stack.whole 0
      a.value b.value := by
    rw [← levels true]
    exact conforms_of_not_overflows held
  obtain ⟨v, answer, -⟩ := conforms_answers held
  have checked : ((upTo stack deepest true).check (deepest.toNat + 1) stack.whole 0 a.value
      b.value).outcome = .ok v := by
    rw [← whole]
    exact answer
  obtain ⟨tree, visits⟩ := exists_visits checked
  obtain ⟨rule, last⟩ := last_record checked
  refine ⟨by rw [hushed]; rfl, by rw [hushed]; rfl, v, rule, tree, answer, fun trace other => ?_, ?_,
    fun t ht => ?_, ?_, visits.nests⟩
  · rw [levels]
    have one : (upTo stack deepest trace).Visits (deepest.toNat + 1) stack.whole 0 a.value b.value
        tree := by
      refine visits_of_outcomes (fun n room depth a b v answer => ?_) visits
      have free : ¬ ((upTo stack deepest true).check n room depth a b).Exhausted := by
        rw [Run.Exhausted, answer]
        simp
      exact (outcome_check_eq depth (fun _ => rfl) (Nat.le_refl _) free).trans answer
    exact ⟨fun h => h.unique one, fun h => h ▸ one⟩
  · rw [whole]
    exact records_of_visits visits checked
  · have bottom : (0 : Int) + (deepest.toNat + 1 : Nat) = deepest + 1 := by omega
    have reach := visits.depths ht
    rwa [bottom, Int.lt_add_one_iff] at reach
  · rw [whole]
    exact last

/-- A tuple with an item that is found among the options of a union, and one that lies too deep. -/
theorem trace_of_tuple :
    let text (n : Nat) : Schema := .plain (.made n) .string
    let a : Schema := .tuple (.made 0) [text 1, .array (.made 2) (text 3)]
    let b : Schema := .tuple (.made 4) [.union (.made 5) [text 1], .array (.made 6) (text 7)]
    let run (trace : Bool) : Run Bool := (upTo .standard 1 trace).conforms a.value b.value
    (0 : Int) ≤ 1 ∧ (run true).outcome = (run false).outcome ∧
      (∃ (v : Bool) (rule : Rule) (tree : Visit), (run true).outcome = .ok v ∧
        (run true).records = tree.postorder.map (Visit.record (.ok 1)) ∧
        (run true).records.getLast? = some (.decided 0 "tuple" "tuple" v rule) ∧
        Visit.Nests tree.postorder) ∧
      (run true).records =
        [.depthExceeded (.ok 1) "string" "string", .decided 1 "string" "union" false .unionTarget,
          .decided 0 "tuple" "tuple" false .tuplePair] := by
  intro text a b run
  have sound : a.WellFormed := by simp [WellFormed, a, text, IsSound, PartsSound, Schema.id]
  obtain ⟨told, -, held⟩ := trace_is_postorder .standard a b 1 (by decide)
  obtain ⟨alike, -, v, rule, tree, answer, -, records, -, last, nests⟩ :=
    told (held sound (.inr (by decide)))
  exact ⟨by decide, alike, ⟨v, rule, tree, answer, records, last, nests⟩, by rfl⟩

/-- **A comparison that is given up says so at last.**  Two towers of tuples are compared with
decisions reported; the last record is the warning, and the pair itself is not decided.  For lower
ones the reports make the difference: with them the comparison is given up, without them it comes to
an end. -/
theorem given_up_at_last :
    (∀ first n, (tuples 2 first n).WellFormed) ∧
      ((upTo .standard 100000 true).conforms (tuples 2 0 2000).value
        (tuples 2 1 2000).value).records.getLast? =
          some (.stackExceeded (.ok 100000) "tuple" "tuple") ∧
      ((upTo .standard 196 false).conforms (tuples 2 0 196).value
        (tuples 2 1 196).value).outcome = .ok true ∧
      ((upTo .standard 196 true).conforms (tuples 2 0 196).value
        (tuples 2 1 196).value).outcome = .ok false := by
  refine ⟨tuples_wellFormed 2, ?_, ?_, ?_⟩
  · have overflow : (upTo .standard 100000 true).Overflows (tuples 2 0 2000).value
        (tuples 2 1 2000).value :=
      overflows_of_descends (tuples_descend 2000) (by decide) (by decide)
    rw [conforms_of_overflows overflow]
    exact List.getLast?_concat
  · exact conforms_of_descends (tuples_descend 196) (by decide) (by decide)
  · exact conforms_outcome_of_overflows
      (overflows_of_descends (tuples_descend 196) (by decide) (by decide))

end Policy

end Conformance
