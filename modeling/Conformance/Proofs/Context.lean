/-
# Conformance.Proofs.Context — containers are covariant, at one level each.

A `Frame` is a container with a hole: an array, a tuple with its other items, a record with its
other part, an object with its other fields.  A `Context` nests frames.  Each of them is built
twice, around a source and around a target, and the two share the other parts.

A part that is compared with itself conforms by identity and is not looked into, so the comparison
of two nodes in a context is that of the nodes themselves, one level per frame further down and with
the calls held that the rules of the frames hold (`outcome_check_plug`).  The answer is the same
unless these calls are missing in the end.
-/
import Conformance.Proofs.Room

namespace Conformance

/-! ## Runs that let another one through -/

namespace Run

variable {x y : Run Bool}

/-- **`Lets x`** — beside the run `x` another one has the say: `x` answers yes, or calls run out. -/
def Lets (x : Run Bool) : Prop := x.outcome = .ok true ∨ x.Exhausted

theorem outcome_both (x y : Run Bool) :
    (both x y).outcome = x.outcome >>= fun v => if v then y.outcome else .ok false := by
  rw [both, outcome_bind]
  congr 1
  funext v
  cases v <;> rfl

theorem outcome_both_of_true (yes : x.outcome = .ok true) : (both x y).outcome = y.outcome := by
  rw [outcome_both, yes]
  rfl

theorem exhausted_both (h : x.Exhausted) : (both x y).Exhausted := by
  rw [Exhausted, outcome_both, h]
  rfl

theorem Lets.outcome_both_right (hx : Lets x) (held : ¬ (both x y).Exhausted) :
    (both x y).outcome = y.outcome := by
  rcases hx with yes | exhausted
  · exact outcome_both_of_true yes
  · exact absurd (exhausted_both exhausted) held

theorem Lets.outcome_both_left (hy : Lets y) (held : ¬ (both x y).Exhausted) :
    (both x y).outcome = x.outcome := by
  cases first : x.outcome with
  | error e =>
    rw [outcome_both, first]
    rfl
  | ok v =>
    cases v with
    | false =>
      rw [outcome_both, first]
      rfl
    | true =>
      rw [Exhausted, outcome_both_of_true first] at held
      rw [outcome_both_of_true first]
      exact hy.resolve_right held

theorem Lets.both (hx : Lets x) (hy : Lets y) : Lets (both x y) := by
  rcases hx with yes | exhausted
  · unfold Lets Exhausted
    rw [outcome_both_of_true yes]
    exact hy
  · exact .inr (exhausted_both exhausted)

variable {β : Type} {f : β → Run Bool} {before after : List β}

theorem lets_allM (h : ∀ b ∈ after, Lets (f b)) : Lets (after.allM f) := by
  induction after with
  | nil => exact .inl rfl
  | cons b rest ih =>
    rw [List.allM_cons]
    exact (h b List.mem_cons_self).both (ih fun c hc => h c (List.mem_cons_of_mem b hc))

/-- Among runs that let it through, one run has the say. -/
theorem outcome_allM {b : β} (lets : ∀ c ∈ before ++ after, Lets (f c))
    (held : ¬ ((before ++ b :: after).allM f).Exhausted) :
    ((before ++ b :: after).allM f).outcome = (f b).outcome := by
  induction before with
  | nil =>
    rw [List.nil_append, List.allM_cons] at held ⊢
    exact (lets_allM lets).outcome_both_left held
  | cons c rest ih =>
    rw [List.cons_append, List.forall_mem_cons] at lets
    rw [List.cons_append, List.allM_cons] at held ⊢
    have same := lets.1.outcome_both_right held
    refine same.trans (ih lets.2 ?_)
    rwa [Exhausted, ← same]

end Run

/-! ## Containers with a hole -/

/-- **`Frame`** — a container with a hole: for the element of an array, an item of a tuple, the key
or the value of a record, a field of an object.  The other parts are there. -/
inductive Frame where
  | array
  | tuple (before after : List Schema)
  | key (part : Schema)
  | value (part : Schema)
  | field (before : List (String × Schema)) (name : String) (after : List (String × Schema))

namespace Frame

open Schema Rule

/-- The container, once the hole is filled. -/
def fill (id : Ident) (s : Schema) : Frame → Schema
  | .array => .array id s
  | .tuple before after => .tuple id (before ++ s :: after)
  | .key part => .record id s part
  | .value part => .record id part s
  | .field before name after => .object id (before ++ (name, s) :: after)

/-- Is the hole a field? -/
def isField : Frame → Bool
  | .field .. => true
  | _ => false

/-- The rule that compares two such containers. -/
def rule : Frame → Rule
  | .array => .arrayPair
  | .tuple .. => .tuplePair
  | .key _ | .value _ => .recordPair
  | .field .. => .objectPair

/-- The other parts, as they are compared: a field as it is when present. -/
def others : Frame → List Schema
  | .array => []
  | .tuple before after => before ++ after
  | .key part | .value part => [part]
  | .field before _ after => (before ++ after).map fun f => f.2.present

variable {frame : Frame} {i j : Ident} {s t : Schema}

theorem rule_fill (apart : i.same j = false) :
    (frame.fill i s).rule (frame.fill j t) = frame.rule := by
  have ids : (frame.fill i s).id.same (frame.fill j t).id = false := by cases frame <;> exact apart
  rw [Schema.rule, ids]
  cases frame <;> rfl

theorem mem_children_fill : s ∈ (frame.fill i s).children := by
  cases frame <;> simp [fill, children]

theorem omittable_fill : (frame.fill i s).omittable = false := by
  cases frame <;> rfl

theorem wellFormed_of_mem_others (wf : (frame.fill i s).WellFormed) {r : Schema}
    (hr : r ∈ frame.others) : r.WellFormed := by
  cases frame with
  | array => cases hr
  | tuple before after =>
    refine wf.child (List.mem_append.mpr ?_)
    exact (List.mem_append.mp hr).imp_right (List.mem_cons_of_mem s)
  | key part => exact wf.child (List.mem_cons_of_mem s hr)
  | value part => exact wf.child (List.mem_cons.mpr (.inl (List.mem_singleton.mp hr)))
  | field before name after =>
    obtain ⟨f, hf, rfl⟩ := List.mem_map.mp hr
    refine (wf.child (List.mem_map_of_mem (List.mem_append.mpr ?_))).present
    exact (List.mem_append.mp hf).imp_right (List.mem_cons_of_mem _)

theorem present_of_not_omittable (h : s.omittable = false) : s.present = s := by
  cases s with
  | wrap id w inner =>
    cases w with
    | optional => cases h
    | nullable => rfl
  | _ => rfl

section Decide

variable {sub : Compare}

/-- A field against the same field. -/
theorem fieldConforms_self {fields : List (String × Schema)} {f : String × Schema}
    (found : fields.lookup f.1 = some f.2) :
    fieldConforms sub (fields.map entry) (entry f) = sub f.2.present.value f.2.present.value := by
  rw [fieldConforms_of_lookup found]
  cases f.2.omittable <;> rfl

theorem arrayPairOf_fill :
    arrayPairOf sub (Schema.array i s).value (Schema.array j t).value =
      some <$> sub s.value t.value := by
  rw [arrayPairOf, arrayElement?_value, arrayElement?_value]
  rfl

theorem recordPairOf_fill {u v : Schema} :
    recordPairOf sub (Schema.record i s u).value (Schema.record j t v).value =
      some <$> Run.both (sub s.value t.value) (sub u.value v.value) := by
  rw [recordPairOf, recordKey?_value, recordValue?_value, recordKey?_value, recordValue?_value]
  rfl

theorem tuplePairOf_fill {before after : List Schema} :
    tuplePairOf sub (Schema.tuple i (before ++ s :: after)).value
        (Schema.tuple j (before ++ t :: after)).value =
      some <$> ((before.map fun r => (r.value, r.value)) ++ (s.value, t.value) ::
        after.map fun r => (r.value, r.value)).allM fun p => sub p.1 p.2 := by
  set xs := (before ++ s :: after).map Schema.value with hxs
  set ys := (before ++ t :: after).map Schema.value with hys
  have zipped : xs.zip ys = (before.map fun r => (r.value, r.value)) ++ (s.value, t.value) ::
      after.map fun r => (r.value, r.value) := by
    rw [hxs, hys, List.map_append, List.map_append, List.zip_append rfl, List.map_cons,
      List.map_cons, List.zip_cons_cons, List.zip_map', List.zip_map']
  have lengths : (xs.length == ys.length) = true := by simp [hxs, hys]
  have answer : tuplePairOf sub (Schema.tuple i (before ++ s :: after)).value
      (Schema.tuple j (before ++ t :: after)).value =
      if (xs.length == ys.length) = true then some <$> (xs.zip ys).allM fun p => sub p.1 p.2
      else pure (some false) := by
    rw [tuplePairOf, tupleItems?_value, tupleItems?_value]
    rfl
  rw [answer, if_pos lengths, zipped]

theorem objectPairOf_fill {fields before after : List (String × Schema)} {name : String} :
    objectPairOf sub (Schema.object i fields).value
        (Schema.object j (before ++ (name, t) :: after)).value =
      some <$> (before.map entry ++ entry (name, t) :: after.map entry).allM
        (fieldConforms sub (fields.map entry)) := by
  rw [← List.map_cons, ← List.map_append, objectPairOf, fields_value, fields_value]
  rfl

/-- **A frame comes down to its hole**, if the comparisons of its other parts let that through. -/
theorem decide_fill (wf : (frame.fill i s).WellFormed)
    (direct : frame.isField = true → s.omittable = false ∧ t.omittable = false)
    (lets : ∀ r ∈ frame.others, Run.Lets (sub r.value r.value)) :
    ∃ z : Run Bool, Rule.decide sub (frame.fill i s).value (frame.fill j t).value frame.rule =
      some <$> z ∧ (¬ z.Exhausted → z.outcome = (sub s.value t.value).outcome) := by
  cases frame with
  | array => exact ⟨_, arrayPairOf_fill, fun _ => rfl⟩
  | tuple before after =>
    refine ⟨_, tuplePairOf_fill, Run.outcome_allM ?_⟩
    rw [← List.map_append, List.forall_mem_map]
    exact lets
  | key part => exact ⟨_, recordPairOf_fill, (lets part (.head _)).outcome_both_left⟩
  | value part => exact ⟨_, recordPairOf_fill, (lets part (.head _)).outcome_both_right⟩
  | field before name after =>
    have distinct : ((before ++ (name, s) :: after).map Prod.fst).Nodup := wf.here.2
    have found (f : String × Schema) (hf : f ∈ before ++ (name, s) :: after) :
        (before ++ (name, s) :: after).lookup f.1 = some f.2 := lookup_of_mem distinct hf
    have hole : fieldConforms sub ((before ++ (name, s) :: after).map entry) (entry (name, t)) =
        sub s.value t.value := by
      rw [fieldConforms_of_lookup (found (name, s) (by simp)), (direct rfl).1, (direct rfl).2,
        present_of_not_omittable (direct rfl).1, present_of_not_omittable (direct rfl).2]
      rfl
    refine ⟨_, objectPairOf_fill, fun held => (Run.outcome_allM ?_ held).trans (congrArg _ hole)⟩
    rw [← List.map_append, List.forall_mem_map]
    intro f hf
    rw [fieldConforms_self (found f ?_)]
    · exact lets _ (List.mem_map_of_mem hf)
    · simp only [List.mem_append, List.mem_cons] at hf ⊢
      exact hf.imp_right .inr

end Decide

end Frame

/-! ## Contexts -/

/-- **`Shell`** — a frame that is built twice, around a source and around a target. -/
structure Shell where
  frame : Frame
  source : Ident
  target : Ident

/-- **`Context`** — frames inside each other, the outermost first. -/
abbrev Context := List Shell

namespace Schema

/-- A node in the hole of a context, on one of its two sides. -/
def plug (side : Shell → Ident) (c : Context) (s : Schema) : Schema :=
  c.foldr (fun shell inner => shell.frame.fill (side shell) inner) s

end Schema

namespace Shell

/-- The calls that the rules of a context hold. -/
def held : Context → Nat
  | [] => 0
  | shell :: rest => shell.frame.rule.held + held rest

/-- A field that is filled may not be left out, on either side. -/
def Direct (c : Context) (x y : Schema) : Prop :=
  ∀ shell ∈ c.getLast?, shell.frame.isField = true → x.omittable = false ∧ y.omittable = false

theorem Direct.tail {shell : Shell} {rest : Context} {x y : Schema}
    (h : Direct (shell :: rest) x y) : Direct rest x y := by
  cases rest with
  | nil => exact nofun
  | cons next more => exact h

/-- Inside a context, only a container stands directly in a field. -/
theorem Direct.head {shell : Shell} {rest : Context} {x y : Schema}
    (h : Direct (shell :: rest) x y) (field : shell.frame.isField = true) :
    (x.plug Shell.source rest).omittable = false ∧
      (y.plug Shell.target rest).omittable = false := by
  cases rest with
  | nil => exact h shell rfl field
  | cons next more => exact ⟨Frame.omittable_fill, Frame.omittable_fill⟩

end Shell

namespace Policy

open Schema Shell

variable {p : Policy} {k room : Nat} {depth : Int}

/-- A node conforms to itself, unless there is no room at all. -/
theorem lets_check_self {s : Schema} (built : ∃ n, s.id = .made n) :
    Run.Lets (p.check (k + 1) room depth s.value s.value) := by
  obtain ⟨n, hn⟩ := built
  by_cases short : room < p.callsFor s.value s.value
  · exact .inr (check_of_short short)
  · exact .inl (outcome_check_same (Ident.same_iff.mpr ⟨n, hn, hn⟩) (Nat.le_of_not_lt short))

/-- **A frame costs one level and the calls of its rule.** -/
theorem outcome_check_fill {frame : Frame} {i j : Ident} {s t : Schema} (apart : i.same j = false)
    (wf : (frame.fill i s).WellFormed)
    (direct : frame.isField = true → s.omittable = false ∧ t.omittable = false)
    (held : ¬ (p.check (k + 2) room depth (frame.fill i s).value
      (frame.fill j t).value).Exhausted) :
    (p.check (k + 2) room depth (frame.fill i s).value (frame.fill j t).value).outcome =
      (p.check (k + 1) (room - frame.rule.held) (depth + 1) s.value t.value).outcome := by
  have space : p.callsFor (frame.fill i s).value (frame.fill j t).value ≤ room :=
    Nat.le_of_not_lt fun short => held (check_of_short short)
  have lets (r : Schema) (hr : r ∈ frame.others) : Run.Lets
      (p.check (k + 1) (room - frame.rule.held) (depth + 1) r.value r.value) :=
    lets_check_self (Frame.wellFormed_of_mem_others wf hr).here.1
  obtain ⟨z, decides, outcome⟩ := Frame.decide_fill (j := j) wf direct lets
  have whole : (p.check (k + 2) room depth (frame.fill i s).value (frame.fill j t).value).outcome =
      z.outcome := by
    refine check_outcome space ?_
    rw [Frame.rule_fill apart]
    exact decides
  refine whole.trans (outcome ?_)
  rwa [Run.Exhausted, ← whole]

/-- **The comparison of two nodes in a context is that of the nodes**, further down. -/
theorem outcome_check_plug {c : Context} {x y : Schema} (wf : (x.plug Shell.source c).WellFormed)
    (fresh : ∀ shell ∈ c, shell.source.same shell.target = false) (direct : Direct c x y)
    (notExhausted : ¬ (p.check (c.length + k + 1) room depth (x.plug Shell.source c).value
      (y.plug Shell.target c).value).Exhausted) :
    (p.check (c.length + k + 1) room depth (x.plug Shell.source c).value
        (y.plug Shell.target c).value).outcome =
      (p.check (k + 1) (room - held c) (depth + c.length) x.value y.value).outcome := by
  -- By induction on the context, from the outside.
  induction c generalizing room depth with
  | nil =>
    rw [List.length_nil, Nat.zero_add, Int.natCast_zero, Int.add_zero]
    rfl
  | cons shell rest ih =>
    rw [List.forall_mem_cons] at fresh
    have levels : (shell :: rest).length + k + 1 = (rest.length + k) + 2 := by
      rw [List.length_cons]
      omega
    have left : room - held (shell :: rest) = room - shell.frame.rule.held - held rest := by
      rw [Nat.sub_sub]
      rfl
    have down : depth + ((shell :: rest).length : Nat) = depth + 1 + (rest.length : Nat) := by
      rw [List.length_cons]
      omega
    rw [levels] at notExhausted
    rw [levels, left, down]
    have frame : _ = (p.check (rest.length + k + 1) _ _ (x.plug Shell.source rest).value
        (y.plug Shell.target rest).value).outcome :=
      outcome_check_fill fresh.1 wf direct.head notExhausted
    refine frame.trans (ih (wf.child Frame.mem_children_fill) fresh.2 direct.tail ?_)
    rwa [Run.Exhausted, ← frame]

section Covariance

variable {stack : Stack} {c : Context} {x y : Schema} {d : Int} {trace : Bool}
  (wf : (x.plug Shell.source c).WellFormed)
  (fresh : ∀ shell ∈ c, shell.source.same shell.target = false) (direct : Direct c x y)
  (nonneg : 0 ≤ d)
  (notGivenUp : ¬ (upTo stack (d + c.length) trace).Overflows (x.plug Shell.source c).value
    (y.plug Shell.target c).value)

include wf fresh direct nonneg notGivenUp

/-- In a context, two nodes are compared as under the lower limit, with less room. -/
theorem outcome_check_inside :
    ((upTo stack (d + c.length) trace).check ((upTo stack (d + c.length) trace).levelsFrom 0)
        stack.whole 0 (x.plug Shell.source c).value (y.plug Shell.target c).value).outcome =
      ((upTo stack d trace).check ((upTo stack d trace).levelsFrom 0) (stack.whole - held c) 0
        x.value y.value).outcome := by
  have inside : (upTo stack d trace).levelsFrom 0 = d.toNat + 1 := levelsFrom_eq_succ nonneg
  have whole : (upTo stack (d + c.length) trace).levelsFrom 0 = c.length + d.toNat + 1 := by
    rw [levelsFrom_upTo]
    omega
  rw [Overflows, whole] at notGivenUp
  rw [inside, whole]
  exact (outcome_check_plug wf fresh direct notGivenUp).trans (outcome_check_congr 0).symm

/-- What is not given up in a context is not given up without it, and has the same outcome. -/
theorem outcome_conforms_plug :
    ((upTo stack d trace).conforms x.value y.value).outcome =
      ((upTo stack (d + c.length) trace).conforms (x.plug Shell.source c).value
        (y.plug Shell.target c).value).outcome := by
  have inside := outcome_check_inside wf fresh direct nonneg notGivenUp
  have less : stack.whole - Shell.held c ≤ stack.whole := Nat.sub_le _ _
  have heldInside : ¬ ((upTo stack d trace).check ((upTo stack d trace).levelsFrom 0)
      (stack.whole - Shell.held c) 0 x.value y.value).Exhausted := by
    rw [Run.Exhausted, ← inside]
    exact notGivenUp
  have more : ((upTo stack d trace).check ((upTo stack d trace).levelsFrom 0) stack.whole 0 x.value
      y.value).outcome = _ := outcome_check_eq 0 id less heldInside
  have heldAlone : ¬ (upTo stack d trace).Overflows x.value y.value := by
    rw [Overflows]
    show ¬ ((upTo stack d trace).check ((upTo stack d trace).levelsFrom 0) stack.whole 0 x.value
      y.value).outcome = _
    rwa [more]
  rw [conforms_outcome_of_not_overflows notGivenUp, conforms_outcome_of_not_overflows heldAlone]
  exact more.trans inside.symm

end Covariance

/-- **Containers are covariant, at one level each.**  In a context, a comparison with as many more
levels as the context has frames answers as it does for the two nodes themselves, unless it is given
up.  It is given up where the nodes themselves need more calls than the context leaves; it is not
where the trees or the limit are not too high. -/
theorem conforms_plug (stack : Stack) (c : Context) (x y : Schema) (d : Int) (trace : Bool)
    (nonneg : 0 ≤ d) (wf : (x.plug Shell.source c).WellFormed)
    (fresh : ∀ shell ∈ c, shell.source.same shell.target = false) (direct : Direct c x y) :
    let a := x.plug Shell.source c
    let b := y.plug Shell.target c
    (¬ (upTo stack (d + c.length) trace).Overflows a.value b.value →
      ∃ v, ((upTo stack (d + c.length) trace).conforms a.value b.value).outcome = .ok v ∧
        ((upTo stack d trace).conforms x.value y.value).outcome = .ok v) ∧
    (((upTo stack d trace).check ((upTo stack d trace).levelsFrom 0) (stack.whole - held c) 0
        x.value y.value).Exhausted →
      (upTo stack (d + c.length) trace).Overflows a.value b.value) ∧
    (5 * (a.height + b.height) + stack.most ≤ stack.whole ∨
        5 * (d + c.length + 1) + stack.most ≤ stack.whole →
      ¬ (upTo stack (d + c.length) trace).Overflows a.value b.value) := by
  intro a b
  refine ⟨fun notGivenUp => ?_, fun exhausted => ?_, not_overflows_of_bound wf⟩
  · obtain ⟨v, answer, -⟩ := conforms_answers notGivenUp
    exact ⟨v, answer, (outcome_conforms_plug wf fresh direct nonneg notGivenUp).trans answer⟩
  · by_contra notGivenUp
    have inside := outcome_check_inside wf fresh direct nonneg notGivenUp
    exact notGivenUp (inside.trans exhausted)

/-- Below a field, an item of a tuple and a key of a record, a single text conforms to text. -/
theorem text_conforms_in_context :
    let text (n : Nat) : Schema := .plain (.made n) .string
    let c : Context :=
      [⟨.field [("a", .wrap (.made 0) .optional (text 1))] "b" [], .made 2, .made 3⟩,
        ⟨.tuple [text 4] [text 5], .made 6, .made 7⟩, ⟨.key (text 8), .made 9, .made 10⟩]
    let x : Schema := .literal (.made 11) [.text "v"]
    (x.plug Shell.source c).WellFormed ∧
      ((upTo .standard 3 false).conforms (x.plug Shell.source c).value
        ((text 12).plug Shell.target c).value).outcome = .ok true := by
  intro text c x
  have wf : (x.plug Shell.source c).WellFormed := by
    simp [WellFormed, plug, Frame.fill, c, x, text, IsSound, PartsSound, Schema.id, Value.MayList,
      Value.isLiteral, Value.datum, Value.HasClass]
  have alone : ((upTo .standard 0 false).conforms x.value (text 12).value).outcome = .ok true := rfl
  have covariant := conforms_plug .standard c x (text 12) 0 false (Int.le_refl 0) wf (by decide)
    (by simp [Direct, c, Frame.isField])
  obtain ⟨v, inContext, same⟩ := covariant.1 (covariant.2.2 (.inr (by decide)))
  rw [alone] at same
  cases same
  exact ⟨wf, inContext⟩

end Policy

/-! ## Where calls run out -/

namespace Shell

open Schema

/-- So many tuples of one item. -/
def tuples : Nat → Context
  | 0 => []
  | n + 1 => ⟨.tuple [] [], .made (2 * (n + 1)), .made (2 * (n + 1) + 1)⟩ :: tuples n

theorem length_tuples (n : Nat) : (tuples n).length = n := by
  induction n with
  | zero => rfl
  | succ n ih => exact congrArg (· + 1) ih

theorem fresh_tuples {n : Nat} {shell : Shell} (h : shell ∈ tuples n) :
    shell.source.same shell.target = false ∧ shell.frame.isField = false := by
  induction n with
  | zero => cases h
  | succ n ih =>
    rcases List.mem_cons.mp h with rfl | later
    · simp [Ident.same, Frame.isField]
    · exact ih later

/-- On either side, the identities of the tuples are every other one. -/
theorem plug_tuples {side : Shell → Ident} {first : Nat}
    (every : ∀ n, side ⟨.tuple [] [], .made (2 * (n + 1)), .made (2 * (n + 1) + 1)⟩ =
      .made (2 * (n + 1) + first)) (n : Nat) :
    (plain (.made first) .string).plug side (tuples n) = Schema.tuples 2 first n := by
  induction n with
  | zero => rfl
  | succ n ih =>
    have level : (plain (.made first) .string).plug side (tuples (n + 1)) = Schema.tuple
        (side ⟨.tuple [] [], .made (2 * (n + 1)), .made (2 * (n + 1) + 1)⟩)
        [(plain (.made first) .string).plug side (tuples n)] := rfl
    rw [level, every, ih]
    rfl

end Shell

namespace Policy

open Schema Shell

/-- Two thousand tuples around two nodes for text hold more calls than there are. -/
theorem context_without_room :
    let c := Shell.tuples 2000
    let x : Schema := .plain (.made 0) .string
    let y : Schema := .plain (.made 1) .string
    (x.plug Shell.source c).WellFormed ∧ (y.plug Shell.target c).WellFormed ∧
      (∀ shell ∈ c, shell.source.same shell.target = false) ∧ Direct c x y ∧ c.length = 2000 ∧
      ((upTo .standard 98000 false).conforms x.value y.value).outcome = .ok true ∧
      ((upTo .standard (98000 + c.length) false).conforms (x.plug Shell.source c).value
        (y.plug Shell.target c).value).outcome = .ok false := by
  intro c x y
  have field {shell : Shell} (h : shell ∈ c.getLast?) : shell.frame.isField = false :=
    (fresh_tuples (List.mem_of_getLast? h)).2
  have source : x.plug Shell.source c = Schema.tuples 2 0 2000 := plug_tuples (fun _ => rfl) 2000
  have target : y.plug Shell.target c = Schema.tuples 2 1 2000 := plug_tuples (fun _ => rfl) 2000
  refine ⟨?_, ?_, fun shell h => (fresh_tuples h).1, ?_, length_tuples 2000, rfl, ?_⟩
  · rw [source]
    exact tuples_wellFormed 2 0 2000
  · rw [target]
    exact tuples_wellFormed 2 1 2000
  · intro shell h isField
    rw [field h] at isField
    cases isField
  · rw [source, target, length_tuples]
    exact conforms_outcome_of_overflows
      (overflows_of_descends (tuples_descend 2000) (by decide) (by decide))

end Policy

end Conformance
