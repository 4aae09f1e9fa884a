/-
# Conformance.Proofs.Evaluation — evaluating one expression after the other.

To evaluate an expression is to evaluate others in order (`Expr.sequence`) and then to make its
value from theirs (`Expr.finish`).  So one can speak of every expression that is evaluated on the
way, and of the identities that are in use when its turn comes (`Expr.Evaluates`).  Where an upheld
property holds of what is bound, each of them gives a value with the property, unless a node is made
from parts as they are; and what each of them gives is filed in the ledger at the end.
-/
import Conformance.Eval
import Conformance.Proofs.Inspect
import Conformance.Proofs.Making

namespace Conformance

open Build (Records)
open Value (Upheld)

/-- Wrapping once more is done last. -/
theorem Wrap.times_succ (wrap : Wrap) (count : Nat) (v : Value) :
    wrap.times (count + 1) v = wrap.times count v >>= wrap.once := by
  induction count generalizing v with
  | zero => simp [times]
  | succ n ih =>
    rw [times, times, bind_assoc]
    exact congrArg (wrap.once v >>= ·) (funext ih)

namespace Expr

/-! ## Operands in order -/

/-- The expressions that are evaluated for an expression, in this order.  To wrap once more begins
with wrapping less often. -/
def sequence : Expr → List Expr
  | .list items | .tuple items | .newClass _ items | .build _ items => items
  | .dict entries => entries.flatMap fun e => [e.1, e.2]
  | .enumeration _ named | .lookalike named | .construct _ named | .assemble _ named =>
    named.map Prod.snd
  | .instanceOf e => [e]
  | .call _ self args => self :: args
  | .wrapped 0 _ base => [base]
  | .wrapped (count + 1) wrap base => [.wrapped count wrap base]
  | _ => []

/-- Keys and values that take turns, put one after the other. -/
def putEntries (known : Entries) : List Value → Entries
  | key :: value :: rest => putEntries (known.put key value) rest
  | _ => known

/-- Named values, put one after the other. -/
def putAll (known : Arguments) (named : List (String × Value)) : Arguments :=
  named.foldl (fun known p => putName known p.1 p.2) known

/-- **`finish`** — the value of an expression, once those before it have theirs. -/
def finish (scope : Scope) : Expr → List Value → Build Value
  | .list _, vs => do return .list (← Build.fresh) vs
  | .tuple _, vs => do return .tuple (← Build.fresh) vs
  | .dict _, vs => do return .dict (← Build.fresh) (putEntries [] vs)
  | .newClass name _, vs => Value.newClass name vs
  | .instanceOf _, vs => (vs.headD .null).call []
  | .enumeration name named, vs => Value.newEnumeration name ((named.map Prod.fst).zip vs)
  | .lookalike named, vs => do
    return .lookalike (← Build.fresh) (putAll [] ((named.map Prod.fst).zip vs))
  | .build builder _, vs => builder.apply vs
  | .construct model named, vs =>
    Descriptor.construct model (putAll [] ((named.map Prod.fst).zip vs))
  | .assemble model named, vs =>
    Descriptor.assemble model (putAll [] ((named.map Prod.fst).zip vs))
  | .call method _ _, vs => do
    let callee ← Build.ofExcept (Callee.find method (vs.headD .null))
    callee.apply vs.tail
  | .wrapped 0 _ _, vs => pure (vs.headD .null)
  | .wrapped (_ + 1) wrap _, vs => wrap.once (vs.headD .null)
  | e, _ => e.eval scope

theorem sizeOf_lt_of_mem_sequence {e f : Expr} (h : f ∈ e.sequence) : sizeOf f < sizeOf e := by
  have item (es : List Expr) (hf : f ∈ es) : sizeOf f < sizeOf es := List.sizeOf_lt_of_mem hf
  have value (named : List (String × Expr)) (hf : f ∈ named.map Prod.snd) :
      sizeOf f < sizeOf named := by
    obtain ⟨⟨name, f⟩, hp, rfl⟩ := List.mem_map.mp hf
    have smaller := List.sizeOf_lt_of_mem hp
    simp only [Prod.mk.sizeOf_spec] at smaller ⊢
    omega
  cases e with
  | list items => have := item items h; simp only [list.sizeOf_spec]; omega
  | tuple items => have := item items h; simp only [tuple.sizeOf_spec]; omega
  | newClass name items => have := item items h; simp only [newClass.sizeOf_spec]; omega
  | build builder items => have := item items h; simp only [build.sizeOf_spec]; omega
  | dict entries =>
    obtain ⟨⟨key, val⟩, hp, hf⟩ := List.mem_flatMap.mp h
    have smaller := List.sizeOf_lt_of_mem hp
    simp only [Prod.mk.sizeOf_spec] at smaller
    simp only [dict.sizeOf_spec]
    rcases List.mem_pair.mp hf with rfl | rfl
    · omega
    · omega
  | enumeration name named => have := value named h; simp only [enumeration.sizeOf_spec]; omega
  | lookalike named => have := value named h; simp only [lookalike.sizeOf_spec]; omega
  | construct model named => have := value named h; simp only [construct.sizeOf_spec]; omega
  | assemble model named => have := value named h; simp only [assemble.sizeOf_spec]; omega
  | instanceOf c =>
    cases List.mem_singleton.mp h
    simp only [instanceOf.sizeOf_spec]
    omega
  | call method self args =>
    simp only [call.sizeOf_spec]
    rcases List.mem_cons.mp h with rfl | h
    · omega
    · have := item args h; omega
  | wrapped count wrap base =>
    cases count with
    | zero =>
      cases List.mem_singleton.mp h
      simp only [wrapped.sizeOf_spec]
      omega
    | succ n =>
      cases List.mem_singleton.mp h
      simp only [wrapped.sizeOf_spec, sizeOf_nat]
      omega
  | _ => cases h

/-- Induction over what is evaluated for an expression. -/
theorem sequence_induction {motive : Expr → Prop}
    (step : ∀ e, (∀ f ∈ e.sequence, motive f) → motive e) (e : Expr) : motive e :=
  step e fun f hf =>
    have : sizeOf f < sizeOf e := sizeOf_lt_of_mem_sequence hf
    sequence_induction step f
termination_by sizeOf e

section Order

variable {scope : Scope} {n m : Nat}

theorem evalMembers_eq_ok {es : List (String × Expr)} {args : Arguments}
    (h : evalMembers scope es n = .ok (args, m)) :
    ∃ vs, evalAll scope (es.map Prod.snd) n = .ok (vs, m) ∧
      args = (es.map Prod.fst).zip vs := by
  induction es generalizing args n with
  | nil =>
    cases h
    exact ⟨[], rfl, rfl⟩
  | cons e rest ih =>
    obtain ⟨name, value⟩ := e
    obtain ⟨p, k, one, more⟩ := Build.bind_eq_ok.mp h
    obtain ⟨v, j, made, named⟩ := Build.bind_eq_ok.mp one
    cases named
    obtain ⟨ps, i, rest, together⟩ := Build.bind_eq_ok.mp more
    cases together
    obtain ⟨vs, all, rfl⟩ := ih rest
    exact ⟨v :: vs, Build.bind_eq_ok.mpr ⟨v, k, made, Build.bind_eq_ok.mpr ⟨vs, m, all, rfl⟩⟩, rfl⟩

/-- To put named values one after the other is to have all of them and to put them then. -/
theorem evalNamed_eq_map (known : Arguments) (es : List (String × Expr)) :
    evalNamed scope known es = putAll known <$> evalMembers scope es := by
  induction es generalizing known with
  | nil => rfl
  | cons e rest ih =>
    show (evalOneNamed scope e >>= fun p => evalNamed scope (putName known p.1 p.2) rest) = _
    simp only [evalMembers, ih, map_eq_pure_bind, bind_assoc, pure_bind]
    rfl

theorem evalNamed_eq_ok {es : List (String × Expr)} {known args : Arguments}
    (h : evalNamed scope known es n = .ok (args, m)) :
    ∃ vs, evalAll scope (es.map Prod.snd) n = .ok (vs, m) ∧
      args = putAll known ((es.map Prod.fst).zip vs) := by
  rw [evalNamed_eq_map, map_eq_pure_bind] at h
  obtain ⟨ps, k, members, put⟩ := Build.bind_eq_ok.mp h
  cases put
  obtain ⟨vs, all, rfl⟩ := evalMembers_eq_ok members
  exact ⟨vs, all, rfl⟩

theorem evalEntries_eq_ok {es : List (Expr × Expr)} {known entries : Entries}
    (h : evalEntries scope known es n = .ok (entries, m)) :
    ∃ vs, evalAll scope (es.flatMap fun e => [e.1, e.2]) n = .ok (vs, m) ∧
      entries = putEntries known vs := by
  induction es generalizing known n with
  | nil =>
    cases h
    exact ⟨[], rfl, rfl⟩
  | cons e rest ih =>
    obtain ⟨keyExpr, valueExpr⟩ := e
    obtain ⟨⟨key, value⟩, k, one, more⟩ := Build.bind_eq_ok.mp h
    obtain ⟨key', i, hkey, one⟩ := Build.bind_eq_ok.mp one
    obtain ⟨value', j, hvalue, one⟩ := Build.bind_eq_ok.mp one
    cases hashable : key'.unhashable? with
    | some sortName =>
      rw [hashable] at one
      cases one
    | none =>
      rw [hashable] at one
      cases one
      obtain ⟨vs, all, rfl⟩ := ih more
      refine ⟨key :: value :: vs, ?_, rfl⟩
      refine Build.bind_eq_ok.mpr ⟨key, i, hkey, Build.bind_eq_ok.mpr ⟨value :: vs, m, ?_, rfl⟩⟩
      exact Build.bind_eq_ok.mpr ⟨value, k, hvalue, Build.bind_eq_ok.mpr ⟨vs, m, all, rfl⟩⟩

theorem evalAll_singleton {e : Expr} {v : Value} (h : e.eval scope n = .ok (v, m)) :
    evalAll scope [e] n = .ok ([v], m) :=
  Build.bind_eq_ok.mpr ⟨v, m, h, rfl⟩

/-- **`finish_of_eval`** — an expression that has a value comes to it in this order. -/
theorem finish_of_eval {e : Expr} {w : Value} (h : e.eval scope n = .ok (w, m)) :
    ∃ vs k, evalAll scope e.sequence n = .ok (vs, k) ∧ e.finish scope vs k = .ok (w, m) := by
  cases e with
  | list items => exact Build.bind_eq_ok.mp h
  | tuple items => exact Build.bind_eq_ok.mp h
  | newClass name items => exact Build.bind_eq_ok.mp h
  | build builder items => exact Build.bind_eq_ok.mp h
  | dict entries =>
    obtain ⟨es, k, put, last⟩ := Build.bind_eq_ok.mp h
    obtain ⟨vs, all, rfl⟩ := evalEntries_eq_ok put
    exact ⟨vs, k, all, last⟩
  | enumeration name named =>
    obtain ⟨args, k, put, last⟩ := Build.bind_eq_ok.mp h
    obtain ⟨vs, all, rfl⟩ := evalMembers_eq_ok put
    exact ⟨vs, k, all, last⟩
  | lookalike named =>
    obtain ⟨args, k, put, last⟩ := Build.bind_eq_ok.mp h
    obtain ⟨vs, all, rfl⟩ := evalNamed_eq_ok put
    exact ⟨vs, k, all, last⟩
  | construct model named =>
    obtain ⟨args, k, put, last⟩ := Build.bind_eq_ok.mp h
    obtain ⟨vs, all, rfl⟩ := evalNamed_eq_ok put
    exact ⟨vs, k, all, last⟩
  | assemble model named =>
    obtain ⟨args, k, put, last⟩ := Build.bind_eq_ok.mp h
    obtain ⟨vs, all, rfl⟩ := evalNamed_eq_ok put
    exact ⟨vs, k, all, last⟩
  | instanceOf c =>
    obtain ⟨v, k, made, last⟩ := Build.bind_eq_ok.mp h
    exact ⟨[v], k, evalAll_singleton made, last⟩
  | call method self args =>
    -- What is to be called is looked up before the arguments are evaluated, and makes nothing.
    obtain ⟨v, k, made, call⟩ := Build.bind_eq_ok.mp h
    obtain ⟨callee, j, looked, called⟩ := Build.bind_eq_ok.mp call
    obtain ⟨vs, i, all, last⟩ := Build.bind_eq_ok.mp called
    obtain ⟨found, rfl⟩ := Build.ofExcept_eq_ok.mp looked
    refine ⟨v :: vs, i, Build.bind_eq_ok.mpr ⟨v, k, made, ?_⟩, ?_⟩
    · exact Build.bind_eq_ok.mpr ⟨vs, i, all, rfl⟩
    · exact Build.bind_eq_ok.mpr ⟨callee, i, Build.ofExcept_eq_ok.mpr ⟨found, rfl⟩, last⟩
  | wrapped count wrap base =>
    obtain ⟨v, k, made, last⟩ := Build.bind_eq_ok.mp h
    cases count with
    | zero => exact ⟨[v], k, evalAll_singleton made, last⟩
    | succ count =>
      rw [wrap.times_succ] at last
      obtain ⟨u, j, before, once⟩ := Build.bind_eq_ok.mp last
      have inner : (Expr.wrapped count wrap base).eval scope n = .ok (u, j) :=
        Build.bind_eq_ok.mpr ⟨v, k, made, before⟩
      exact ⟨[u], j, evalAll_singleton inner, once⟩
  | _ => exact ⟨[], n, rfl, h⟩

end Order

/-! ## What is evaluated on the way -/

mutual
/-- **`Evaluates scope e n f k`** — to evaluate the first expression, with `n` identities in use, is
also to evaluate the second, when `k` are in use. -/
inductive Evaluates (scope : Scope) : Expr → Nat → Expr → Nat → Prop where
  | self (e : Expr) (n : Nat) : Evaluates scope e n e n
  | operand {e f : Expr} {n k : Nat} :
    EvaluatesAmong scope e.sequence n f k → Evaluates scope e n f k

/-- The same for expressions that are evaluated one after the other. -/
inductive EvaluatesAmong (scope : Scope) : List Expr → Nat → Expr → Nat → Prop where
  | head {e f : Expr} {rest : List Expr} {n k : Nat} :
    Evaluates scope e n f k → EvaluatesAmong scope (e :: rest) n f k
  | tail {e f : Expr} {rest : List Expr} {v : Value} {n m k : Nat} :
    e.eval scope n = .ok (v, m) → EvaluatesAmong scope rest m f k →
      EvaluatesAmong scope (e :: rest) n f k
end

/-! ## Expressions that check what they make -/

/-- The expressions that are evaluated for an expression. -/
def operands : Expr → List Expr
  | .list items | .tuple items | .newClass _ items | .build _ items => items
  | .dict entries => entries.map Prod.fst ++ entries.map Prod.snd
  | .enumeration _ named | .lookalike named | .construct _ named | .assemble _ named =>
    named.map Prod.snd
  | .instanceOf e | .wrapped _ _ e => [e]
  | .call _ self args => self :: args
  | _ => []

/-- Does the expression make a node from parts as they are? -/
def isAssembly : Expr → Bool
  | .assemble _ _ => true
  | _ => false

/-- **`IsChecked`** — nowhere in the expression is a node made from parts as they are. -/
def IsChecked (e : Expr) : Prop := Throughout operands (fun e => e.isAssembly = false) e

theorem IsChecked.of_mem_sequence {e f : Expr} (h : e.IsChecked) (hf : f ∈ e.sequence) :
    f.IsChecked := by
  cases e with
  | dict entries =>
    obtain ⟨entry, hentry, hf⟩ := List.mem_flatMap.mp hf
    rcases List.mem_pair.mp hf with rfl | rfl
    · exact h.of_mem (List.mem_append_left _ (List.mem_map_of_mem hentry))
    · exact h.of_mem (List.mem_append_right _ (List.mem_map_of_mem hentry))
  | wrapped count wrap base =>
    have inner : base.IsChecked := h.of_mem List.mem_cons_self
    cases count with
    | zero =>
      cases List.mem_singleton.mp hf
      exact inner
    | succ n =>
      cases List.mem_singleton.mp hf
      exact .intro rfl (List.forall_mem_singleton.mpr inner)
  | list items => exact h.of_mem hf
  | tuple items => exact h.of_mem hf
  | newClass name items => exact h.of_mem hf
  | build builder items => exact h.of_mem hf
  | enumeration name named => exact h.of_mem hf
  | lookalike named => exact h.of_mem hf
  | construct model named => exact h.of_mem hf
  | assemble model named => exact h.of_mem hf
  | instanceOf c => exact h.of_mem hf
  | call method self args => exact h.of_mem hf
  | _ => cases hf

/-! ## What holds of the values -/

theorem forall_putEntries {P : Value → Prop} {known : Entries} {vs : List Value}
    (hk : ∀ e ∈ known, P e.1 ∧ P e.2) (h : ∀ v ∈ vs, P v) :
    ∀ e ∈ putEntries known vs, P e.1 ∧ P e.2 := by
  fun_induction putEntries known vs with
  | case1 known key value rest ih =>
    simp only [List.forall_mem_cons] at h
    exact ih (Value.forall_put hk h.1 h.2.1) h.2.2
  | case2 known => exact hk

theorem forall_putAll {P : Value → Prop} {known : Arguments} {named : List (String × Value)}
    (hk : ∀ p ∈ known, P p.2) (h : ∀ p ∈ named, P p.2) : ∀ p ∈ putAll known named, P p.2 := by
  induction named generalizing known with
  | nil => exact hk
  | cons q rest ih =>
    obtain ⟨hq, hrest⟩ := List.forall_mem_cons.mp h
    refine ih (fun p hp => ?_) hrest
    rcases Schema.mem_putName hp with hp | rfl
    · exact hk p hp
    · exact hq

/-- A node that is made from parts as they are has the property if they have it. -/
def Assembles (H : Ledger → Value → Prop) : Prop :=
  ∀ {l : Ledger} (model : Model) {args : Arguments}, (∀ arg ∈ args, H l arg.2) →
    Records l (Descriptor.assemble model args) H

section Values

variable {scope : Scope} {H : Ledger → Value → Prop} {l : Ledger} {n : Nat}

/-- The property holds of the values of all that is evaluated. -/
def Accounts (scope : Scope) (H : Ledger → Value → Prop) (l : Ledger) (e : Expr) (n : Nat) : Prop :=
  ∀ f k v m, Evaluates scope e n f k → f.eval scope k = .ok (v, m) → H l v

/-- The same for expressions that are evaluated one after the other. -/
def AccountsAll (scope : Scope) (H : Ledger → Value → Prop) (l : Ledger) (es : List Expr)
    (n : Nat) : Prop :=
  ∀ f k v m, EvaluatesAmong scope es n f k → f.eval scope k = .ok (v, m) → H l v

/-- What is to be shown of an expression: its evaluation adds the cards of what it makes, and then
the property holds of all of that. -/
def Settles (scope : Scope) (H : Ledger → Value → Prop) (e : Expr) : Prop :=
  ∀ l n v m, (∀ p ∈ scope, H l p.2) → l.Below n → e.eval scope n = .ok (v, m) →
    ∃ l', l.Grows l' ∧ l'.Below m ∧ Accounts scope H l' e n

variable (up : Upheld H)
include up

theorem finish_records {e : Expr} {vs : List Value} (assembled : e.isAssembly = true → Assembles H)
    (bound : ∀ p ∈ scope, H l p.2) (h : ∀ v ∈ vs, H l v) : Records l (e.finish scope vs) H := by
  have lenient := up.lenient l
  have head : H l (vs.headD .null) := lenient.headD h
  have tail : ∀ v ∈ vs.tail, H l v := fun v hv => h v (List.mem_of_mem_tail hv)
  have arguments (named : List (String × Expr)) :
      ∀ p ∈ putAll [] ((named.map Prod.fst).zip vs), H l p.2 :=
    forall_putAll (List.forall_mem_nil _) (forall_mem_zip_snd h)
  have held {x : Build Value} (hx : Records l x (Value.Made H)) : Records l x H :=
    hx.mono fun _ _ _ made => made.1
  cases e with
  | list items => exact up.newChangeable (fun _ => rfl) (fun _ => rfl) fun _ => h
  | tuple items => exact held (up.newSimple (fun _ => rfl) fun _ => h)
  | dict entries =>
    refine up.newChangeable (fun _ => rfl) (fun _ => rfl) fun _ => ?_
    exact Value.forall_mem_keys_append_values.mpr (forall_putEntries (List.forall_mem_nil _) h)
  | newClass name items => exact held (Value.newClass_made up name h)
  | instanceOf c => exact held (Value.call_made up head (List.forall_mem_nil _))
  | enumeration name named => exact held (Value.newEnumeration_made up name (forall_mem_zip_snd h))
  | lookalike named =>
    refine up.newChangeable (fun _ => rfl) (fun _ => rfl) fun _ => ?_
    exact List.forall_mem_map.mpr (arguments named)
  | build builder items => exact held (builder.apply_made up h)
  | construct model named => exact held (Descriptor.construct_made up model (arguments named))
  | assemble model named => exact assembled rfl model (arguments named)
  | call method self args =>
    exact .read (lenient.find method head) fun callee hc => held (Callee.apply_made up hc tail)
  | wrapped count wrap base =>
    cases count with
    | zero => exact .pure head
    | succ count => exact held (wrap.once_made up head)
  | ref name =>
    show Records l ((Expr.ref name).eval scope) _
    unfold eval
    split
    case h_1 v found => exact .pure (bound _ (mem_of_lookup found))
    case h_2 => exact .throw _
  | kind name =>
    show Records l ((Expr.kind name).eval scope) _
    unfold eval
    split
    · exact .pure (up.flat rfl rfl)
    · exact .throw _
  | float x => exact held (up.newSimple (fun _ => rfl) fun _ => List.forall_mem_nil _)
  | plainObject => exact held (up.newObject (up.baseClass .object) (by simp))
  | baseClass b => exact .pure (up.baseClass b)
  | _ => exact .pure (up.flat rfl rfl)

theorem evalAll_settles {es : List Expr} (each : ∀ e ∈ es, Settles scope H e) {vs : List Value}
    {m : Nat} (bound : ∀ p ∈ scope, H l p.2) (below : l.Below n)
    (h : evalAll scope es n = .ok (vs, m)) :
    ∃ l', l.Grows l' ∧ l'.Below m ∧ (∀ v ∈ vs, H l' v) ∧ AccountsAll scope H l' es n := by
  induction es generalizing l n vs with
  | nil =>
    cases h
    refine ⟨l, .refl l, below, List.forall_mem_nil _, ?_⟩
    intro f k v m among
    cases among
  | cons e rest ih =>
    obtain ⟨settled, each⟩ := List.forall_mem_cons.mp each
    obtain ⟨v, k, first, more⟩ := Build.bind_eq_ok.mp h
    obtain ⟨ws, j, others, together⟩ := Build.bind_eq_ok.mp more
    cases together
    obtain ⟨l₁, grows₁, below₁, accounts⟩ := settled l n v k bound below first
    obtain ⟨l₂, grows₂, below₂, held, accountsAll⟩ :=
      ih each (fun p hp => up.mono (bound p hp) grows₁) below₁ others
    have here := accounts e n v k (.self e n) first
    refine ⟨l₂, grows₁.trans grows₂, below₂, ?_, ?_⟩
    · exact List.forall_mem_cons.mpr ⟨up.mono here grows₂, held⟩
    · intro f i u m' among made
      cases among with
      | head inner => exact up.mono (accounts f i u m' inner made) grows₂
      | tail again inner =>
        rw [first] at again
        cases again
        exact accountsAll f i u m' inner made

/-- **`eval_settles`** — an upheld property of what is bound holds of all that is evaluated, if it
holds of assembled nodes or none are assembled. -/
theorem eval_settles (scope : Scope) {e : Expr} (fit : Assembles H ∨ e.IsChecked) :
    Settles scope H e := by
  induction e using sequence_induction with
  | step e ih =>
    intro l n v m bound below made
    obtain ⟨vs, k, all, last⟩ := finish_of_eval made
    have each : ∀ f ∈ e.sequence, Settles scope H f := fun f hf =>
      ih f hf (fit.imp_right fun checked => checked.of_mem_sequence hf)
    have assembled (assembly : e.isAssembly = true) : Assembles H := by
      rcases fit with assembles | checked
      · exact assembles
      · rw [checked.here] at assembly
        cases assembly
    obtain ⟨l₁, grows₁, below₁, held, accounts⟩ := evalAll_settles up each bound below all
    obtain ⟨l₂, grows₂, below₂, here⟩ :=
      finish_records up assembled (fun p hp => up.mono (bound p hp) grows₁) held k below₁ v m last
    refine ⟨l₂, grows₁.trans grows₂, below₂, ?_⟩
    intro f i u m' inner again
    cases inner with
    | self =>
      rw [made] at again
      cases again
      exact here
    | operand among => exact up.mono (accounts f i u m' among again) grows₂

theorem eval_holds {e : Expr} (fit : Assembles H ∨ e.IsChecked) (bound : ∀ p ∈ scope, H l p.2) :
    Records l (e.eval scope) H := by
  intro n below v m made
  obtain ⟨l', grows, below', accounts⟩ := eval_settles up scope fit l n v m bound below made
  exact ⟨l', grows, below', accounts e n v m (.self e n) made⟩

end Values

end Expr

/-! ## What is filed -/

/-- Every value that is bound is filed. -/
def Scope.Filed (scope : Scope) (l : Ledger) : Prop := ∀ p ∈ scope, p.2.Filed l

theorem Scope.Filed.mono {scope : Scope} {l l' : Ledger} (h : scope.Filed l) (grows : l.Grows l') :
    scope.Filed l' := fun p hp => (h p hp).mono grows

namespace Expr

section Filing

variable {scope : Scope} {l : Ledger}

theorem assembles_filed : Assembles Value.Filed := by
  intro l model args hargs
  refine .bind (.fresh fun n => (Value.node (.made n) model (model.parts.filterMap fun part =>
    ((args.lookup part.name).or part.default?).map fun v => (part, v))).card) ?_
  rintro l' _ grows ⟨n, rfl, card⟩
  refine .pure (.intro (Value.recorded_of_card rfl card) (List.forall_mem_map.mpr fun p hp => ?_))
  obtain ⟨part, -, stored⟩ := List.mem_filterMap.mp hp
  obtain ⟨v, given, rfl⟩ := Option.map_eq_some_iff.mp stored
  rcases Option.or_eq_some_iff.mp given with found | ⟨-, usual⟩
  · exact (hargs _ (mem_of_lookup found)).mono grows
  · exact (Descriptor.default?_formed Value.upheld_filed model usual).1

theorem settles_filed (scope : Scope) (e : Expr) : Settles scope Value.Filed e :=
  eval_settles Value.upheld_filed scope (.inl assembles_filed)

theorem eval_records (e : Expr) (bound : scope.Filed l) :
    Records l (e.eval scope) fun l' v => v.Filed l' :=
  eval_holds Value.upheld_filed (.inl assembles_filed) bound

theorem evalAll_records (es : List Expr) (bound : scope.Filed l) :
    Records l (evalAll scope es) fun l' vs => ∀ v ∈ vs, v.Filed l' := by
  intro n below vs m made
  obtain ⟨l', grows, below', filed, -⟩ :=
    evalAll_settles Value.upheld_filed (fun e _ => settles_filed scope e) bound below made
  exact ⟨l', grows, below', filed⟩

theorem evalNamed_records (es : List (String × Expr)) (bound : scope.Filed l) :
    Records l (evalNamed scope [] es) fun _ _ => True := by
  intro n below args m made
  obtain ⟨vs, all, -⟩ := evalNamed_eq_ok made
  obtain ⟨l', grows, below', -⟩ := evalAll_records _ bound n below vs m all
  exact ⟨l', grows, below', trivial⟩

end Filing

end Expr

end Conformance
