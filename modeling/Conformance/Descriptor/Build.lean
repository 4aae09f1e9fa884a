/-
# Conformance.Descriptor.Build — making nodes.

`construct` makes a node from named parts and refuses what does not fit its model, with every issue
at once: part by part in the order of declaration, then names that the model does not have.
`assemble` stores what it is given.  Builders and methods are ways to call `construct`.

A successful `construct` never changes a part that is a node: children are kept as they are.
-/
import Conformance.Value.Call

namespace Conformance

/-- A result, or the issues that prevent it. -/
abbrev Checked := Except (List Issue)

namespace Checked

/-- Issues of both, or both results. -/
def and {α β : Type} (x : Checked α) (y : Checked β) : Checked (α × β) :=
  match x, y with
  | .ok a, .ok b => .ok (a, b)
  | .ok _, .error is => .error is
  | .error is, .ok _ => .error is
  | .error is, .error js => .error (is ++ js)

/-- Issues of both, or one list. -/
def cons {α : Type} (x : Checked α) (xs : Checked (List α)) : Checked (List α) :=
  (x.and xs).map fun p => p.1 :: p.2

/-- The issues as seen from one step further out. -/
def within {α : Type} (step : Place) (x : Checked α) : Checked α :=
  x.mapError fun is => is.map (Issue.within step)

/-- A single complaint about the value itself. -/
def complain {α : Type} (complaint : Complaint) : Checked α := .error [⟨[], complaint⟩]

end Checked

namespace Part

/-- What a part is when nothing is given for it. -/
def default? : Part → Option Value
  | .items => some (.tuple .transient [])
  | .shape => some (.frozen [])
  | .label => some (.text "custom")
  | .predicate | .target => some .null
  | _ => none

end Part

namespace Descriptor

/-! ## Children -/

/-- A key of a mapping that stands in the place of a child. -/
def keyIssue (key : Value) : Issue :=
  ⟨[.ofKey key], if key.isText then .unknownPart else .keyNotText⟩

/-- A child is a node.  An empty mapping is taken for a node without a kind. -/
def acceptChild : Value → Build (Checked Value)
  | .node id model parts => pure (.ok (.node id model parts))
  | .dict _ [] => do return .ok (.node (← Build.fresh) .base [])
  | .dict _ entries => pure (.error (entries.map fun e => keyIssue e.1))
  | _ => pure (.complain .notDescriptor)

/-- Children by position, from a position on. -/
def acceptChildren : Nat → List Value → Build (Checked (List Value))
  | _, [] => pure (.ok [])
  | position, v :: rest => do
    let head ← acceptChild v
    let tail ← acceptChildren (position + 1) rest
    return .cons (head.within (.position position)) tail

/-- A sequence of children, kept as a tuple. -/
def acceptTuple (items : List Value) : Build (Checked Value) := do
  return (← acceptChildren 0 items).map (.tuple .transient)

/-- The text that a value is taken for where a text is wanted.  A constant is taken for its value. -/
def textFor? (v : Value) : Build (Option String) :=
  match v.text?, v.constantValue? with
  | some s, _ => pure (some s)
  | none, some value => do return some (← Build.ofExcept value.toText)
  | none, none => pure none

/-- The name of a field. -/
def acceptName (key : Value) : Build (Checked Value) := do
  match ← textFor? key with
  | some s => return .ok (.text s)
  | none => return .error [⟨[.name "[key]"], .notText⟩]

/-- Fields by name. -/
def acceptFields : Entries → Build (Checked Entries)
  | [] => pure (.ok [])
  | e :: rest => do
    let name ← acceptName e.1
    let child ← acceptChild e.2
    let tail ← acceptFields rest
    return .cons ((name.and child).within (.ofKey e.1)) tail

/-! ## Sets of values -/

/-- What speaks against a set of literal values. -/
def literalRefusal? (values : List Value) : Option Refusal :=
  if values.isEmpty then some .noLiteral
  else (values.find? fun v => !v.isLiteral).map fun v => .showing v (.unfitLiteral v)

/-- What speaks against a member of an enumeration. -/
def memberRefusal? (v : Value) : Option Refusal :=
  if !v.isEnumerable then some (.showing v (.unfitMember v))
  else
    match v.double? with
    | some x => if x.isNaN then some .undefinedNumber else none
    | none => none

/-- What speaks against the members of an enumeration. -/
def enumRefusal? (values : List Value) : Option Refusal :=
  if values.isEmpty then some .noMember else values.findSome? memberRefusal?

/-- The values that a value stands for: a text is one value, anything else is gone through. -/
def valuesOf (v : Value) : Except Fault (List Value) :=
  if v.isText then .ok [v] else v.gather

/-- The members that a value stands for; a class of constants stands for their values. -/
def membersOf (v : Value) : Except Fault (List Value) :=
  match v with
  | .enumeration _ _ members => .ok (members.map Prod.snd)
  | _ => valuesOf v

/-- The values, unless something speaks against them. -/
def unlessRefused (refusal? : Option Refusal) (values : List Value) : Checked Value :=
  match refusal? with
  | some reason => .complain (.refused reason)
  | none => .ok (.tuple .transient values)

/-! ## Parts -/

/-- The items of a value that may stand for a tuple of children: any sequence but a text or a
mapping. -/
def tupleElements? (v : Value) : Option (List Value) :=
  if v.isText || v.entries?.isSome then none else v.elements?

/-- **`acceptPart`** — what is given for a part of a model, in the form in which it is kept. -/
def acceptPart (model : Model) (part : Part) (v : Value) : Build (Checked Value) :=
  match part with
  | .values => do
    if model = .of .enum then
      let members ← Build.ofFaulty (membersOf v)
      return unlessRefused (enumRefusal? members) members
    else
      let values ← Build.ofFaulty (valuesOf v)
      return unlessRefused (literalRefusal? values) values
  | .inner | .element | .keyType | .valueType | .left | .right => acceptChild v
  | .items =>
    match tupleElements? v with
    | some items => acceptTuple items
    | none => pure (.complain .notTuple)
  | .options => do
    let options ← Build.ofFaulty v.gather
    if options.isEmpty then return .complain (.refused .noOption)
    else acceptTuple options
  | .shape =>
    match v.entries? with
    | some entries => do
      return (← acceptFields entries).map fun fields => .frozen (Entries.merge [] fields)
    | none => pure (.complain .notMapping)
  | .label => do
    match ← textFor? v with
    | some s => return .ok (.text s)
    | none => return .complain .notText
  | .predicate =>
    pure (if v.same .null || v.isCallable then .ok v else .complain .notCallable)
  | .target => pure (if v.same .null || v.isClass then .ok v else .complain .notClass)

/-- A part from the arguments, or else as it is when nothing is given. -/
def acceptArgument (model : Model) (args : Arguments) (part : Part) : Build (Checked Value) := do
  let result ← match args.lookup part.name with
    | some v => acceptPart model part v
    | none =>
      match part.default? with
      | some v => pure (.ok v)
      | none => pure (.complain .missingPart)
  return result.within (.name part.name)

/-- Parts from the arguments, in order. -/
def acceptParts (model : Model) (args : Arguments) : List Part → Build (Checked (List (Part × Value)))
  | [] => pure (.ok [])
  | part :: rest => do
    let head ← acceptArgument model args part
    let tail ← acceptParts model args rest
    return .cons (head.map fun v => (part, v)) tail

/-- The issues with names that a model does not have. -/
def extraIssues (model : Model) (args : Arguments) : List Issue :=
  (args.filter fun arg => model.parts.all fun part => part.name != arg.1).map fun arg =>
    ⟨[.name arg.1], .unknownPart⟩

/-- No result but these issues, if there are any. -/
def orIssues : List Issue → Checked Unit
  | [] => .ok ()
  | issues => .error issues

/-- **`construct`** — make a node of a model from named parts, or report every issue. -/
def construct (model : Model) (args : Arguments) : Build Value := do
  let parts ← acceptParts model args model.parts
  match parts.and (orIssues (extraIssues model args)) with
  | .ok (parts, _) => return .node (← Build.fresh) model parts
  | .error issues => throw (.invalid model issues)

/-- **`assemble`** — make a node of a model from named parts as they are. -/
def assemble (model : Model) (args : Arguments) : Build Value := do
  let stored (part : Part) : Option (Part × Value) :=
    ((args.lookup part.name).or part.default?).map fun v => (part, v)
  return .node (← Build.fresh) model (model.parts.filterMap stored)

/-! ## Mappings from values -/

/-- A key and its value from an element of a sequence of pairs. -/
def pairOf (index : Nat) (v : Value) : Except Failure (Value × Value) :=
  match v.elements? with
  | none => .error (.notPair index)
  | some [key, value] =>
    match key.unhashable? with
    | some sortName => .error (.unhashable sortName)
    | none => .ok (key, value)
  | some items => .error (.pairLength index items.length)

/-- The entries of a sequence of pairs, from an index on, put into a mapping. -/
def entriesOfPairs (known : Entries) : Nat → List Value → Except Failure Entries
  | _, [] => .ok known
  | index, v :: rest => do
    let (key, value) ← pairOf index v
    entriesOfPairs (known.put key value) (index + 1) rest

/-- The entries of a mapping or of a sequence of pairs. -/
def entriesOf (v : Value) : Except Failure Entries :=
  match v.entries? with
  | some entries => .ok entries
  | none => do entriesOfPairs [] 0 (← v.gather.mapError .broken)

/-- An object node with the given fields. -/
def constructObject (entries : Entries) : Build Value :=
  construct (.of .object) [("shape", .dict .transient entries)]

end Descriptor

/-! ## Builders -/

/-- **`Builder`** — a way to make a node of a kind from positional values, or one that tests for
instances of a class. -/
inductive Builder where
  | of (kind : Kind)
  | instanceOf
  deriving DecidableEq, Repr

namespace Builder

open Descriptor

/-- The name of a builder.  Four kinds share their name with common words and get an underscore. -/
def name : Builder → String
  | .of .any => "any_"
  | .of .enum => "enum_"
  | .of .tuple => "tuple_"
  | .of .object => "object_"
  | .of kind => kind.name
  | .instanceOf => "instanceof"

/-- Every builder. -/
def all : List Builder := Kind.all.map .of ++ [.instanceOf]

/-- The builder with a name. -/
def ofName? (s : String) : Option Builder := all.find? fun b => b.name == s

/-- The values that a builder takes: a literal any number, an object its shape or nothing, a custom node
a predicate and a label or less, and any other node its parts. -/
def signature (builder : Builder) : Signature :=
  match builder with
  | .instanceOf => ⟨builder.name, ["cls"], some 0⟩
  | .of .literal => ⟨builder.name, [], none⟩
  | .of .object => ⟨builder.name, [], some 1⟩
  | .of .custom => ⟨builder.name, [], some 2⟩
  | .of kind => ⟨builder.name, (Model.of kind).parts.map Part.name, some 0⟩

/-- A custom node that tests for instances of a class. -/
def constructTest (v : Value) : Build Value :=
  match v.className? with
  | none => throw (.showing v (.classWanted v))
  | some name => do
    let test := Value.classTest (← Build.fresh) v
    construct (.of .custom) [("label", .text name), ("predicate", test), ("target", v)]

/-- The positional values of a sequence part, gone through first. -/
def gathered (values : List Value) : Build (List Value) :=
  match values with
  | v :: rest => do
    let items ← Build.ofFaulty v.gather
    return .tuple .transient items :: rest
  | [] => pure []

/-- The shape that an object node is made from; what counts as false is an empty one. -/
def shapeFrom (v : Value) : Except Failure Entries :=
  if v.truthy then entriesOf v else .ok []

/-- Make a node from as many positional values as it takes. -/
def make (builder : Builder) (values : List Value) : Build Value :=
  match builder with
  | .instanceOf => constructTest (values.headD .null)
  | .of .literal => construct (.of .literal) [("values", .tuple .transient values)]
  | .of .tuple => do construct (.of .tuple) (["items"].zip (← gathered values))
  | .of .union => do construct (.of .union) (["options"].zip (← gathered values))
  | .of .object => do constructObject (← Build.ofExcept (shapeFrom (values.headD .null)))
  | .of .custom => construct (.of .custom) (["predicate", "label"].zip values)
  | .of kind => construct (.of kind) (((Model.of kind).parts.map Part.name).zip values)

/-- **`apply`** — make a node from positional values. -/
def apply (builder : Builder) (values : List Value) : Build Value := do
  Build.assertCount builder.signature values.length
  builder.make values

end Builder

/-! ## Methods -/

/-- A way to make a node from another. -/
inductive Method where
  | optional | nullable | array | extend
  deriving DecidableEq, Repr

namespace Method

open Descriptor

/-- The name of a method. -/
def name : Method → String
  | .optional => "optional"
  | .nullable => "nullable"
  | .array => "array"
  | .extend => "extend"

/-- The method with a name. -/
def ofName? (s : String) : Option Method :=
  [.optional, .nullable, .array, .extend].find? fun m => m.name == s

/-- An object node with further fields; a field of the same name is replaced. -/
def extendWith (shape : Option Value) (more : Value) : Build Value := do
  let shape := shape.getD .null
  match shape.entries? with
  | none => throw (.notMapping shape.sortName)
  | some entries =>
    let further ← Build.ofExcept (entriesOf more)
    constructObject (entries.merge further)

/-- The values that a method takes, the node itself among them. -/
def signature : Method → Signature
  | .extend => ⟨"ObjectType.extend", ["self", "shape"], some 0⟩
  | method => ⟨"TypeDescriptor." ++ method.name, ["self"], some 0⟩

/-- Make a node from another and as many values as the method takes. -/
def make (method : Method) (node : Value) (values : List Value) : Build Value :=
  match method with
  | .optional => construct (.of .optional) [("inner", node)]
  | .nullable => construct (.of .nullable) [("inner", node)]
  | .array => construct (.of .array) [("element", node)]
  | .extend => extendWith (node.stored? .shape) (values.headD .null)

/-- Does a node have the method?  Only objects can be extended. -/
def belongsTo (method : Method) : Value → Bool
  | .node _ model _ => method != .extend || model == .of .object
  | _ => false

end Method

/-- What a value has under a name that is to be called. -/
inductive Callee where
  | ofNode (method : Method) (node : Value)
  | other (value : Value)
  | listExtension

namespace Callee

/-- What a value has under a name that is to be called.  A list can be extended too; that gives
nothing, and since no object changes while values are made, the list is left as it is. -/
def find (name : String) (self : Value) : Except Failure Callee :=
  match (Method.ofName? name).filter fun method => method.belongsTo self with
  | some method => .ok (.ofNode method self)
  | none =>
    match self, Method.ofName? name with
    | .list _ _, some .extend => .ok .listExtension
    | _, _ =>
      match self.property? name with
      | some found => .ok (.other found)
      | none => .error (.missing self name)

/-- **`apply`** — call what was found with positional values. -/
def apply (callee : Callee) (values : List Value) : Build Value := do
  match callee with
  | .ofNode method node =>
    Build.assertCount method.signature (values.length + 1)
    method.make node values
  | .other value => value.call values
  | .listExtension =>
    match values with
    | [v] =>
      let _ ← Build.ofFaulty v.gather
      return .null
    | _ => throw (.oneWanted "list.extend" values.length)

end Callee

/-! ## Wrapping again and again -/

/-- A way to wrap a node into another. -/
inductive Wrap where
  | array | optional | nullable | tuple | union | object | record | leftSide | rightSide
  deriving DecidableEq, Repr

namespace Wrap

open Descriptor

/-- The name of a way to wrap. -/
def name : Wrap → String
  | .array => "array"
  | .optional => "optional"
  | .nullable => "nullable"
  | .tuple => "tuple"
  | .union => "union"
  | .object => "object"
  | .record => "record"
  | .leftSide => "intersection_left"
  | .rightSide => "intersection_right"

/-- The way to wrap with a name. -/
def ofName? (s : String) : Option Wrap :=
  [.array, .optional, .nullable, .tuple, .union, .object, .record, .leftSide, .rightSide].find?
    fun w => w.name == s

/-- Wrap a node once. -/
def once (wrap : Wrap) (v : Value) : Build Value :=
  match wrap with
  | .array => construct (.of .array) [("element", v)]
  | .optional => construct (.of .optional) [("inner", v)]
  | .nullable => construct (.of .nullable) [("inner", v)]
  | .tuple => construct (.of .tuple) [("items", .tuple .transient [v])]
  | .union => construct (.of .union) [("options", .tuple .transient [v])]
  | .object => constructObject [(.text "a", v)]
  | .record => do
    let key ← construct (.of .string) []
    construct (.of .record) [("key_type", key), ("value_type", v)]
  | .leftSide => do
    let side ← construct (.of .never) []
    construct (.of .intersection) [("left", v), ("right", side)]
  | .rightSide => do
    let side ← construct (.of .symbol) []
    construct (.of .intersection) [("left", side), ("right", v)]

/-- Wrap a node so many times. -/
def times (wrap : Wrap) : Nat → Value → Build Value
  | 0, v => pure v
  | n + 1, v => do times wrap n (← wrap.once v)

end Wrap

end Conformance
