/-
# Conformance.Eval — expressions that make values, and their evaluation.

Arguments are evaluated from left to right, and the first failure ends the evaluation.  What is called
on a value is looked up before the arguments are evaluated.
-/
import Conformance.Descriptor.Build
import Conformance.Value.Derive

namespace Conformance

/-- **`Expr`** — how a value is made.  Evaluating an expression twice makes two objects; only a
reference gives an object that is there already. -/
inductive Expr where
  | null
  | undefined
  | bool (b : Bool)
  | int (n : Int)
  | float (x : Binary64)
  | text (s : String)
  | kind (name : String)
  | list (items : List Expr)
  | tuple (items : List Expr)
  | dict (entries : List (Expr × Expr))
  | plainObject
  | fixedTest (t : FixedTest)
  | baseClass (b : BaseClass)
  | newClass (name : String) (parents : List Expr)
  | instanceOf (c : Expr)
  | enumeration (name : String) (members : List (String × Expr))
  | lookalike (attributes : List (String × Expr))
  | ref (name : String)
  | build (builder : Builder) (args : List Expr)
  | construct (model : Model) (args : List (String × Expr))
  | assemble (model : Model) (args : List (String × Expr))
  | call (method : String) (self : Expr) (args : List Expr)
  | wrapped (count : Nat) (wrap : Wrap) (base : Expr)


namespace Expr

mutual
/-- **`eval`** — the value of an expression. -/
def eval (scope : Scope) : Expr → Build Value
  | .null => pure .null
  | .undefined => pure .undefined
  | .bool b => pure (.bool b)
  | .int n => pure (.int n)
  | .float x => do return .float (← Build.fresh) x
  | .text s => pure (.text s)
  | .kind name =>
    match Kind.ofName? name with
    | some k => pure (.kind k)
    | none => throw (.badName (.unknownKind name))
  | .list items => do
    let items ← evalAll scope items
    return .list (← Build.fresh) items
  | .tuple items => do
    let items ← evalAll scope items
    return .tuple (← Build.fresh) items
  | .dict entries => do
    let entries ← evalEntries scope [] entries
    return .dict (← Build.fresh) entries
  | .plainObject => do return .object (← Build.fresh) (.base .object)
  | .fixedTest t => pure (.fixedTest t)
  | .baseClass b => pure (.cls (.base b))
  | .newClass name parents => do Value.newClass name (← evalAll scope parents)
  | .instanceOf c => do (← eval scope c).call []
  | .enumeration name members => do Value.newEnumeration name (← evalMembers scope members)
  | .lookalike attributes => do
    let attributes ← evalNamed scope [] attributes
    return .lookalike (← Build.fresh) attributes
  | .ref name =>
    match scope.find? name with
    | some v => pure v
    | none => throw (.unbound name)
  | .build builder args => do builder.apply (← evalAll scope args)
  | .construct model args => do Descriptor.construct model (← evalNamed scope [] args)
  | .assemble model args => do Descriptor.assemble model (← evalNamed scope [] args)
  | .call method self args => do
    let callee ← Build.ofExcept (Callee.find method (← eval scope self))
    callee.apply (← evalAll scope args)
  | .wrapped count wrap base => do wrap.times count (← eval scope base)
termination_by structural e => e

/-- The values of expressions, from left to right. -/
def evalAll (scope : Scope) : List Expr → Build (List Value)
  | [] => pure []
  | e :: rest => do
    let v ← eval scope e
    return v :: (← evalAll scope rest)
termination_by structural es => es

/-- The entries of a mapping, put one after the other. -/
def evalEntries (scope : Scope) (known : Entries) : List (Expr × Expr) → Build Entries
  | [] => pure known
  | e :: rest => do
    let (key, value) ← evalEntry scope e
    evalEntries scope (known.put key value) rest
termination_by structural es => es

/-- One entry of a mapping.  Its key must be able to be one. -/
def evalEntry (scope : Scope) : Expr × Expr → Build (Value × Value)
  | (key, value) => do
    let key ← eval scope key
    let value ← eval scope value
    match key.unhashable? with
    | some sortName => throw (.unhashable sortName)
    | none => return (key, value)
termination_by structural e => e

/-- Named values, put one after the other. -/
def evalNamed (scope : Scope) (known : Arguments) : List (String × Expr) → Build Arguments
  | [] => pure known
  | e :: rest => do
    let (name, value) ← evalOneNamed scope e
    evalNamed scope (putName known name value) rest
termination_by structural es => es

/-- Named values, all of them. -/
def evalMembers (scope : Scope) : List (String × Expr) → Build Arguments
  | [] => pure []
  | e :: rest => do
    let p ← evalOneNamed scope e
    return p :: (← evalMembers scope rest)
termination_by structural es => es

/-- One named value. -/
def evalOneNamed (scope : Scope) : String × Expr → Build (String × Value)
  | (name, value) => do return (name, ← eval scope value)
termination_by structural e => e
end

end Expr

end Conformance
