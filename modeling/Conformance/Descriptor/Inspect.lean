/-
# Conformance.Descriptor.Inspect — reading the kind and the parts of a node.

Nothing here assumes that a node is well formed.  A part that is missing and a part that is null are
treated alike; a value that is no node simply has no kind and no parts.  The one way to fail is to
hold, where a sequence is wanted, a value that cannot be gone through.
-/
import Conformance.Value.Equal

namespace Conformance

/-- **`Fault`** — why a comparison can break off: a value that should be a sequence is none, a depth
limit cannot be compared with a depth or be shown in a report, or the calls that can be held at once
are used up. -/
inductive Fault where
  /-- A value cannot be gone through. -/
  | notIterable (sortName : String)
  /-- A depth limit cannot be compared with a depth. -/
  | unorderedDepth (sortName : String)
  /-- An infinite number is no integer. -/
  | infinite
  /-- What is not a number is no integer. -/
  | notNumber
  /-- An integer has too many digits to be written. -/
  | unwritable
  /-- A comparison needs more calls than can be held at once. -/
  | stackExhausted
  deriving DecidableEq, Repr

namespace Fault

/-- The wording of a fault. -/
def message : Fault → String
  | .notIterable sortName => "'" ++ sortName ++ "' object is not iterable"
  | .unorderedDepth sortName =>
    "'>' not supported between instances of 'int' and '" ++ sortName ++ "'"
  | .infinite => "cannot convert float infinity to integer"
  | .notNumber => "cannot convert float NaN to integer"
  | .unwritable => "Exceeds the limit (4300 digits) for integer string conversion; " ++
      "use sys.set_int_max_str_digits() to increase the limit"
  | .stackExhausted => "maximum recursion depth exceeded"

end Fault

namespace Value

/-! ## Kinds -/

/-- **`kind?`** — the kind of a node.  An object that merely has attributes counts as a node of the
kind that its attribute of that name holds. -/
def kind? : Value → Option Kind
  | .node _ model _ => model.kind?
  | .lookalike _ attributes =>
    match attributes.lookup "kind" with
    | some (.kind k) => some k
    | _ => none
  | _ => none

/-- Is the value a node of the given kind? -/
def isOf (k : Kind) (v : Value) : Bool := v.kind? == some k

/-- What messages call a node: its kind, or else its sort. -/
def label (v : Value) : String :=
  match v.kind? with
  | some k => k.name
  | none => v.sortName

/-! ## Parts -/

/-- A part as it is stored. -/
def stored? (p : Part) : Value → Option Value
  | .node _ _ parts => parts.lookup p
  | .lookalike _ attributes => attributes.lookup p.name
  | _ => none

/-- A part, unless it is missing or null. -/
def part? (p : Part) (v : Value) : Option Value :=
  match v.stored? p with
  | some .null => none
  | found => found

/-- The values met when going through a value. -/
def gather (v : Value) : Except Fault (List Value) :=
  match v.elements? with
  | some items => .ok items
  | none => .error (.notIterable v.sortName)

/-- A part that holds a sequence; a part that counts as false is an empty one. -/
def sequence (p : Part) (v : Value) : Except Fault (List Value) :=
  match v.part? p with
  | none => .ok []
  | some part => if part.truthy then part.gather else .ok []

/-! ## Parts by kind -/

/-- What a wrapper of the given kind holds. -/
def wrapped? (k : Kind) (v : Value) : Option Value :=
  if v.isOf k then v.part? .inner else none

/-- A wrapper of the given kind without its wrapping; any other value as it is. -/
def unwrap (k : Kind) (v : Value) : Value := (v.wrapped? k).getD v

/-- The values of a literal node. -/
def literalValues (v : Value) : Except Fault (List Value) :=
  if v.isOf .literal then v.sequence .values else .ok []

/-- The members of an enumeration node. -/
def enumValues (v : Value) : Except Fault (List Value) :=
  if v.isOf .enum then v.sequence .values else .ok []

/-- The element of an array node. -/
def arrayElement? (v : Value) : Option Value :=
  if v.isOf .array then v.part? .element else none

/-- The items of a tuple node.  No items at all and an empty list of items are told apart. -/
def tupleItems? (v : Value) : Except Fault (Option (List Value)) :=
  if v.isOf .tuple then
    match v.part? .items with
    | none => .ok none
    | some items => items.gather.map some
  else .ok none

/-- The shape of an object node, if it has one that is a mapping. -/
def shape? (v : Value) : Option Value :=
  if v.isOf .object then
    match v.part? .shape with
    | some shape => if shape.entries?.isSome then some shape else none
    | none => none
  else none

/-- The fields of an object node. -/
def fields (v : Value) : Entries := (v.shape?.bind entries?).getD []

/-- The keys of a record node. -/
def recordKey? (v : Value) : Option Value :=
  if v.isOf .record then v.part? .keyType else none

/-- The values of a record node. -/
def recordValue? (v : Value) : Option Value :=
  if v.isOf .record then v.part? .valueType else none

/-- The options of a union node. -/
def unionOptions (v : Value) : Except Fault (List Value) :=
  if v.isOf .union then v.sequence .options else .ok []

/-- The values that a literal or an enumeration lists. -/
def listing (v : Value) : List Value :=
  v.literalValues.toOption.getD [] ++ v.enumValues.toOption.getD []

/-- The values that a node lists as a target, by itself or as options that are literals. -/
def offered (v : Value) : List Value :=
  v.listing ++ (v.unionOptions.toOption.getD []).flatMap fun option =>
    option.literalValues.toOption.getD []

/-- The left side of an intersection node. -/
def leftSide? (v : Value) : Option Value :=
  if v.isOf .intersection then v.part? .left else none

/-- The right side of an intersection node. -/
def rightSide? (v : Value) : Option Value :=
  if v.isOf .intersection then v.part? .right else none

end Value

end Conformance
