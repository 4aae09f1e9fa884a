/-
# Conformance.Scope — names, the objects bound to them, and how an object changes.

Names stand in the order in which they were first bound; binding a name again keeps its place.  An
object that can change may stand in several places, all under one identity.  Changing it changes it
in all of them.
-/
import Conformance.Value.Equal

namespace Conformance

/-! ## Changing an object -/

namespace Value

mutual
/-- **`replace`** — the value with another in every place where the mapping, list or object with
attributes of the given identity stands. -/
def replace (id : Ident) (new : Value) : Value → Value
  | .list i items => if i.same id then new else .list i (replaceItems id new items)
  | .tuple i items => .tuple i (replaceItems id new items)
  | .dict i es => if i.same id then new else .dict i (replaceEntries id new es)
  | .frozen es => .frozen (replaceEntries id new es)
  | .classTest i target => .classTest i (replace id new target)
  | .enumeration i name members => .enumeration i name (replaceNamed id new members)
  | .member owner enumName name value => .member owner enumName name (replace id new value)
  | .lookalike i attributes =>
    if i.same id then new else .lookalike i (replaceNamed id new attributes)
  | .node i model parts => .node i model (replaceParts id new parts)
  | v => v
termination_by structural v => v

/-- The same for every item. -/
def replaceItems (id : Ident) (new : Value) : List Value → List Value
  | [] => []
  | v :: rest => replace id new v :: replaceItems id new rest
termination_by structural vs => vs

/-- The same for every entry. -/
def replaceEntries (id : Ident) (new : Value) : List (Value × Value) → List (Value × Value)
  | [] => []
  | e :: rest => replaceEntry id new e :: replaceEntries id new rest
termination_by structural es => es

/-- The same for one entry. -/
def replaceEntry (id : Ident) (new : Value) : Value × Value → Value × Value
  | (key, value) => (replace id new key, replace id new value)
termination_by structural e => e

/-- The same for every named value. -/
def replaceNamed (id : Ident) (new : Value) : List (String × Value) → List (String × Value)
  | [] => []
  | p :: rest => replaceOneNamed id new p :: replaceNamed id new rest
termination_by structural ps => ps

/-- The same for one named value. -/
def replaceOneNamed (id : Ident) (new : Value) : String × Value → String × Value
  | (name, value) => (name, replace id new value)
termination_by structural p => p

/-- The same for every part. -/
def replaceParts (id : Ident) (new : Value) : List (Part × Value) → List (Part × Value)
  | [] => []
  | p :: rest => replacePart id new p :: replaceParts id new rest
termination_by structural ps => ps

/-- The same for one part. -/
def replacePart (id : Ident) (new : Value) : Part × Value → Part × Value
  | (part, value) => (part, replace id new value)
termination_by structural p => p
end

end Value

/-! ## Names -/

/-- Put a value under a name: a known name keeps its place, a new one goes last. -/
def putName {α : Type} : List (String × α) → String → α → List (String × α)
  | [], name, a => [(name, a)]
  | p :: rest, name, a => if p.1 = name then (name, a) :: rest else p :: putName rest name a

/-- **`Scope`** — names bound to objects. -/
abbrev Scope := List (String × Value)

namespace Scope

/-- The object bound to a name. -/
def find? (scope : Scope) (name : String) : Option Value := scope.lookup name

/-- Bind a name. -/
def bind (scope : Scope) (name : String) (v : Value) : Scope := putName scope name v

/-- Values that are what they are wherever they stand, and so are never shown by a name. -/
def isPlain (v : Value) : Bool :=
  match v.datum with
  | .null | .undefined | .bool _ | .int _ | .float _ _ | .text _ | .kind _ => true
  | _ => false

/-- The first name bound to the very object. -/
def nameOf? (scope : Scope) (v : Value) : Option String :=
  if isPlain v then none else (List.find? (fun p => p.2.same v) scope).map Prod.fst

/-- Put another value in the place of an object that changes, wherever it stands. -/
def replace (scope : Scope) (id : Ident) (new : Value) : Scope :=
  scope.map fun p => (p.1, Value.replace id new p.2)

end Scope

end Conformance
