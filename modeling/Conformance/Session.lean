/-
# Conformance.Session — steps that share one set of names.

A step is performed in a scope and gives a reply; it may bind a name or write to a mapping.  A step
that fails leaves the session as it was.  Its records are written as they are made, so a record that
cannot be written makes it fail.
-/
import Conformance.Catalog
import Conformance.Descriptor.Inspection
import Conformance.Eval
import Conformance.Kind.Parse
import Conformance.Settings

namespace Conformance

/-- How a comparison is to be made; what is not given is as usual. -/
structure PolicyExpr where
  maxDepth : Option Expr
  trace : Option Expr

/-- A way to get settings. -/
inductive SettingsSource where
  | fields (args : List (String × Expr))
  | environment (base : List (String × Expr)) (stem : String)
  | file (path : Option String)
  | load (path : Option String)
  | mapping (base : List (String × Expr)) (value : Expr)

/-- **`Step`** — one operation of a session. -/
inductive Step where
  | bind (name : String) (value : Expr) (quiet : Bool)
  | check (a b : Expr) (policy : PolicyExpr)
  | both (a b : Expr) (policy : PolicyExpr)
  | ask (rule : Rule) (a b : Expr) (depth : Int) (policy : PolicyExpr)
  | askAll (a b : Expr)
  | inspect (node : Expr)
  | hasKind (node kind : Expr)
  | sameValue (a b : Expr) (signedZero : Bool)
  | classify (value : Expr)
  | kindName (value : Expr) (what : String)
  | kindFacts (kind : Expr)
  | checkNames (collections : List Expr)
  | compare (a b : Expr)
  | hashable (node : Expr)
  | setAttribute (node : Expr) (attr : String) (value : Expr)
  | setPolicyField (attr : String) (value : Expr)
  | setField (node key value : Expr)
  | test (node value : Expr)
  | tabulate (catalog : List (String × Expr)) (policy : PolicyExpr)
  | settings (workspace : Workspace) (source : SettingsSource) (pair : Option (Expr × Expr))

/-- The outcome of a comparison and its records. -/
structure Verdict where
  result : Except Failure Bool
  records : List Record

/-- **`Reply`** — the answer to a step. -/
inductive Reply where
  | failed (failure : Failure)
  | done
  | bound (value : Value)
  | decided (result : Bool) (records : List Record)
  | bothWays (forward backward left right : Verdict)
  | asked (result : Option Bool) (records : List Record)
  | askedAll (results : List (Rule × Except Failure (Option Bool)))
  | inspected (node : Value) (inspection : Inspection)
  | truth (result : Bool)
  | classified (literal enumerable : Bool)
  | named (snake : Except Failure Bool) (asserted : Except Failure Unit)
      (parsed : Except Failure Kind)
  | kindFacts (primitive : Bool) (facts : Option KindName.Facts)
  | compared (equal same : Bool)
  | tested (label : Value) (result : Option Value)
  | tabulated (rows : List Row) (records : List Record)
  | settings (settings : Settings) (result : Option Bool) (records : List Record)
  | settingsFailed (failure : Failure) (records : List Record)

namespace Run

/-- The outcome of a run in terms of failures. -/
def result {α : Type} (run : Run α) : Except Failure α := run.outcome.mapError .broken

/-- A run whose records are written as they are made. -/
def logged {α : Type} (run : Run α) : Run α := Logged.written id run

end Run

namespace SettingsSource

/-- Settings from expressions for their fields. -/
def evalFields (scope : Scope) (args : List (String × Expr)) : Build Settings := do
  Build.ofExcept (Settings.ofArguments (← Expr.evalNamed scope [] args))

/-- The settings that a source gives. -/
def eval (scope : Scope) (w : Surroundings) : SettingsSource → Build (Settings.Loading Settings)
  | .fields args => do return pure (← evalFields scope args)
  | .environment base stem => do return Settings.fromVariables w stem (← evalFields scope base)
  | .file path => return Settings.fromFile w path
  | .load path => return Settings.load w path
  | .mapping base value => do
    let base ← evalFields scope base
    return base.apply (← value.eval scope)

end SettingsSource

namespace PolicyExpr

/-- Evaluate an option, or take what is usual. -/
def evalOr (scope : Scope) (usual : Value) : Option Expr → Build Value
  | some e => e.eval scope
  | none => pure usual

/-- The policy of a step. -/
def eval (scope : Scope) (p : PolicyExpr) : Build Policy := do
  let limit ← evalOr scope (.int Policy.defaultDepth) p.maxDepth
  let trace ← evalOr scope (.bool false) p.trace
  return ⟨.ofValue limit, trace.truthy, .standard⟩

end PolicyExpr

namespace Step

/-- Compare a pair under a policy. -/
def judge (p : Policy) (a b : Value) : Verdict :=
  let run := (p.conforms a b).logged
  ⟨run.result, run.records⟩

/-! ## Assignments -/

/-- An object whose attributes can be assigned. -/
def isOpen : Value → Bool
  | .fixedTest _ | .classTest _ _ | .cls _ => true
  | .object _ c => !c.same (.base .object)
  | _ => false

/-- Assign an attribute.  Nodes do not change, and what belongs to a model even less; only a name
that begins with an underscore is let through, and is not part of the node.  No name is told apart
by which an object holds its attributes or its class. -/
def assign (scope : Scope) (target : Value) (attr : String) (value : Value) : Build Scope :=
  match target with
  | .node _ model _ =>
    if attr = "kind" then throw (.modelAttribute model attr)
    else if attr.startsWith "_" then pure scope
    else throw (.invalid model [⟨[.name attr], .frozenNode⟩])
  | .lookalike id attributes =>
    pure (scope.replace id (.lookalike id (putName attributes attr value)))
  | .enumeration _ _ members =>
    if (members.lookup attr).isSome then throw (.fixedConstant attr) else pure scope
  | .cls (.base b) => throw (.fixedClass b.name attr)
  | .kind _ | .member .. =>
    if (target.property? attr).isSome then throw (.fixedProperty attr) else pure scope
  | _ => if isOpen target then pure scope else throw (.missing target attr)

/-- Why an assignment to a policy is refused. -/
def policyAssignmentFailure (attr : String) : Failure :=
  if attr = "max_depth" ∨ attr = "trace" then .fixedField attr else .noFurtherFields

/-- The place in a list that a position means; a negative one counts from the end. -/
def placeIn (length : Nat) (position : Int) : Option Nat :=
  let place := if position < 0 then position + length else position
  if 0 ≤ place ∧ place < length then some place.toNat else none

/-- Is the integer small enough for a position? -/
def isPosition (n : Int) : Bool := -9223372036854775808 ≤ n && n ≤ 9223372036854775807

/-- A value that is asked for positions even if none can be assigned. -/
def takesPositions : Value → Bool
  | .text _ | .tuple _ _ | .frozen _ | .list _ _ | .undefined | .kind _ | .member ..
  | .enumeration _ _ _ | .lookalike _ _ | .node _ _ _ => true
  | .object _ c => !c.same (.base .object)
  | _ => false

/-- Put a value into a mapping under a key, or into a list at a position. -/
def putItem (shape key value : Value) : Except Failure Value :=
  match shape, key.integer? with
  | .dict id entries, _ =>
    match key.unhashable? with
    | some sortName => .error (.unhashable sortName)
    | none => .ok (.dict id (Entries.put entries key value))
  | .list _ _, none => .error (.positionWanted key.sortName)
  | _, none => .error (.fixedItems shape.sortName)
  | _, some position =>
    if takesPositions shape && !isPosition position then .error (.farPosition key.sortName)
    else
      match shape with
      | .list id items =>
        match placeIn items.length position with
        | some place => .ok (.list id (items.set place value))
        | none => .error .noPosition
      | _ => .error (.fixedItems shape.sortName)

/-- Write a field into the shape of a node. -/
def writeField (scope : Scope) (node key value : Value) : Build Scope := do
  let shape ← Build.property node "shape"
  let written ← Build.ofExcept (putItem shape key value)
  match shape.ident? with
  | some id => return scope.replace id written
  | none => return scope

/-! ## Settings -/

/-- Compare a pair under settings that were read with the given records. -/
def judgeUnder (scope : Scope) (s : Settings) (records : List Record) :
    Option (Expr × Expr) → Build Reply
  | none => return .settings s none records
  | some (a, b) => do
    match ← Build.attempt (Expr.evalAll scope [a, b]) with
    | .ok [a, b] =>
      let verdict := judge (s.policy .standard) a b
      match verdict.result with
      | .ok result => return .settings s (some result) (records ++ verdict.records)
      | .error failure => return .settingsFailed failure (records ++ verdict.records)
    | .ok _ => return .settings s none records
    | .error failure => return .settingsFailed failure records

/-- The reply to a step about settings. -/
def performSettings (scope : Scope) (w : Workspace) (source : SettingsSource)
    (pair : Option (Expr × Expr)) : Build Reply := do
  match ← Build.attempt (source.eval scope w.surroundings) with
  | .error failure => return .settingsFailed failure []
  | .ok loading =>
    let loading := loading.written .broken
    match loading.outcome with
    | .error failure => return .settingsFailed failure loading.records
    | .ok s => judgeUnder scope s loading.records pair

/-- **`perform`** — the reply to a step and the scope after it. -/
def perform (scope : Scope) : Step → Build (Scope × Reply)
  | .bind name value quiet => do
    let v ← value.eval scope
    return (scope.bind name v, if quiet then .done else .bound v)
  | .check a b policy => do
    let a ← a.eval scope
    let b ← b.eval scope
    let verdict := judge (← policy.eval scope) a b
    let result ← Build.ofExcept verdict.result
    return (scope, .decided result verdict.records)
  | .both a b policy => do
    let a ← a.eval scope
    let b ← b.eval scope
    let p ← policy.eval scope
    return (scope, .bothWays (judge p a b) (judge p b a) (judge p a a) (judge p b b))
  | .ask rule a b depth policy => do
    let a ← a.eval scope
    let b ← b.eval scope
    let run := ((← policy.eval scope).ask rule depth a b).logged
    let result ← Build.ofExcept run.result
    return (scope, .asked result run.records)
  | .askAll a b => do
    let a ← a.eval scope
    let b ← b.eval scope
    return (scope,
      .askedAll (Rule.all.map fun rule => (rule, (Policy.standard.ask rule 0 a b).logged.result)))
  | .inspect node => do
    let v ← node.eval scope
    return (scope, .inspected v (.of v))
  | .hasKind node kind => do
    let v ← node.eval scope
    let k ← Build.ofExcept (KindName.resolve (← kind.eval scope))
    return (scope, .truth (v.isOf k))
  | .sameValue a b signedZero => do
    let a ← a.eval scope
    let b ← b.eval scope
    return (scope, .truth (a.sameValue signedZero b))
  | .classify value => do
    let v ← value.eval scope
    return (scope, .classified v.isLiteral v.isEnumerable)
  | .kindName value what => do
    let v ← value.eval scope
    return (scope,
      .named (KindName.isSnakeValue v) (KindName.assertSnake what v) (KindName.parse v))
  | .kindFacts kind => do
    let (primitive, facts) ← KindName.factsOf (← kind.eval scope)
    return (scope, .kindFacts primitive facts)
  | .checkNames collections => do
    KindName.assertCollections (← Expr.evalAll scope collections)
    return (scope, .done)
  | .compare a b => do
    let a ← a.eval scope
    let b ← b.eval scope
    return (scope, .compared (a.eq b) (a.same b))
  | .hashable node => do
    let v ← node.eval scope
    match v.unhashable? with
    | some sortName => throw (.unhashable sortName)
    | none => return (scope, .done)
  | .setAttribute node attr value => do
    let v ← node.eval scope
    return (← assign scope v attr (← value.eval scope), .done)
  | .setPolicyField attr value => do
    let _ ← value.eval scope
    throw (policyAssignmentFailure attr)
  | .setField node key value => do
    let v ← node.eval scope
    let key ← key.eval scope
    let value ← value.eval scope
    return (← writeField scope v key value, .done)
  | .test node value => do
    let v ← node.eval scope
    let predicate ← Build.property v "predicate"
    let label ← Build.property v "label"
    if predicate.same .null then return (scope, .tested label none)
    else return (scope, .tested label (some (← predicate.call [← value.eval scope])))
  | .tabulate catalog policy => do
    let catalog ← Expr.evalNamed scope [] catalog
    let p ← policy.eval scope
    Build.ofExcept (Catalog.verify catalog)
    let run := (Catalog.tabulate p catalog).logged
    let rows ← Build.ofExcept run.result
    return (scope, .tabulated rows run.records)
  | .settings workspace source pair => do
    return (scope, ← performSettings scope workspace source pair)

end Step

/-- **`Session`** — the names bound so far and the next identity. -/
structure Session where
  scope : Scope
  next : Nat

namespace Session

/-- A session in which nothing is bound. -/
def empty : Session := ⟨[], 0⟩

/-- **`run`** — perform one step; a failure leaves the session as it was. -/
def run (s : Session) (step : Step) : Session × Reply :=
  match step.perform s.scope s.next with
  | .ok ((scope, reply), next) => (⟨scope, next⟩, reply)
  | .error failure => (s, .failed failure)

/-- Bind names one after the other; the first failure ends it. -/
def define (s : Session) : List (String × Expr) → Except Failure Session
  | [] => .ok s
  | (name, value) :: rest =>
    match value.eval s.scope s.next with
    | .ok (v, next) => define ⟨s.scope.bind name v, next⟩ rest
    | .error failure => .error failure

/-- Perform steps in order.  Each reply comes with the session after its step. -/
def runAll (s : Session) : List Step → List (Session × Reply)
  | [] => []
  | step :: rest =>
    let result := s.run step
    result :: runAll result.1 rest

end Session

/-! ## The public names -/

namespace Vocabulary

/-- The builders that the interface offers. -/
def builders : List Builder :=
  [.of .any, .of .array, .of .bigint, .of .boolean, .of .custom, .of .enum, .instanceOf,
    .of .intersection, .of .literal, .of .never, .of .null, .of .nullable, .of .number, .of .object,
    .of .optional, .of .record, .of .string, .of .symbol, .of .tuple, .of .undefined, .of .union,
    .of .unknown]

/-- The names that the interface offers. -/
def exports : List String :=
  ["is_assignable", "Checker", "CheckSettings", Model.base.name, Value.undefined.spell] ++
    builders.map Builder.name

/-- The names of the kinds with a property, sorted. -/
def sortedKinds (p : Kind → Bool) : List String :=
  ((Kind.all.filter p).map Kind.name).mergeSort fun a b => decide (a ≤ b)

end Vocabulary

end Conformance
