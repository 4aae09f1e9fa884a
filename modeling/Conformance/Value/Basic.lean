/-
# Conformance.Value.Basic — dynamic values.

Descriptors are described by data, and data can be malformed: a node may lack its parts or hold
anything in their place.  So there is one type of values, of which descriptor nodes are one sort.

`Value.same` decides whether two values are one object: objects are compared by their `Ident`, and
plain data (integers, text, names of kinds) by what they are.  A double has an identity too, since
one that is not a number is told from another by nothing else.  Contents are held as a tree; where a
program shares an object, the tree repeats it under one identity.

An instance of a class that derives from a class of data is that data, with a class of its own:
`Value.datum` is what it amounts to.
-/
import Conformance.Class
import Conformance.Model
import Conformance.Number.Binary64
import Conformance.Stamp

namespace Conformance

/-- The fixed predicates: "is it text" and "anything is". -/
inductive FixedTest where
  | isText | always
  deriving DecidableEq, Repr

/-- **`Value`** — a dynamic value: plain data, collections, classes and their instances, predicates,
descriptor nodes, and objects that merely have attributes. -/
inductive Value where
  | null
  | undefined
  | bool (b : Bool)
  | int (n : Int)
  | float (id : Ident) (x : Binary64)
  | text (s : String)
  | kind (k : Kind)
  | stamp (s : Stamp)
  | list (id : Ident) (items : List Value)
  | tuple (id : Ident) (items : List Value)
  | dict (id : Ident) (entries : List (Value × Value))
  | frozen (entries : List (Value × Value))
  | fixedTest (t : FixedTest)
  | classTest (id : Ident) (target : Value)
  | cls (c : ClassRef)
  | enumeration (id : Ident) (name : String) (members : List (String × Value))
  | member (owner : Ident) (enumName name : String) (value : Value)
  | object (id : Ident) (c : ClassRef)
  | lookalike (id : Ident) (attributes : List (String × Value))
  | node (id : Ident) (model : Model) (parts : List (Part × Value))

namespace Value

/-! ## Identity -/

/-- The identity of an object, for the sorts of value that have one. -/
def ident? : Value → Option Ident
  | .float id _ | .list id _ | .tuple id (_ :: _) | .dict id _ | .classTest id _ | .enumeration id _ _
  | .object id _ | .lookalike id _ | .node id _ _ => some id
  | .cls (.made id _ _) => some id
  | _ => none

/-- Plain data that is one and the same wherever it stands. -/
def sameData : Value → Value → Bool
  | .null, .null => true
  | .undefined, .undefined => true
  | .bool a, .bool b => a == b
  | .int a, .int b => a == b
  | .text a, .text b => a == b
  | .kind a, .kind b => a == b
  | .stamp a, .stamp b => a == b
  | .fixedTest a, .fixedTest b => a == b
  | .cls (.base a), .cls (.base b) => a == b
  | .member a _ m _, .member b _ n _ => a.same b && m == n
  | .tuple _ [], .tuple _ [] => true
  | _, _ => false

/-- **`same`** — are the two values one and the same object?  There is one empty tuple. -/
def same (a b : Value) : Bool :=
  match a.ident?, b.ident? with
  | some i, some j => i.same j
  | none, none => a.sameData b
  | _, _ => false

/-! ## Sorts and truth -/

/-- The name of the sort of a value, as messages show it. -/
def sortName : Value → String
  | .null => "NoneType"
  | .undefined => "UndefinedType"
  | .bool _ => "bool"
  | .int _ => "int"
  | .float _ _ => "float"
  | .text _ => "str"
  | .kind _ => "TypeKind"
  | .stamp s => s.sortName
  | .list _ _ => "list"
  | .tuple _ _ => "tuple"
  | .dict _ _ => "dict"
  | .frozen _ => "mappingproxy"
  | .fixedTest _ | .classTest _ _ => "function"
  | .cls _ => "type"
  | .enumeration _ _ _ => "EnumType"
  | .member _ enumName _ _ => enumName
  | .object _ c => c.name
  | .lookalike _ _ => "Fake"
  | .node _ model _ => model.name

/-! ## Instances that are data -/

/-- The zero of a given class of data. -/
def zeroOf : BaseClass → Option Value
  | .int => some (.int 0)
  | .bool => some (.bool false)
  | .str => some (.text "")
  | .float => some (.float .transient .zero)
  | .object => none

/-- **`datum`** — the data that an instance holds by its class, which is zero; any other value as it
is. -/
def datum : Value → Value
  | .object id c => (zeroOf c.layout).getD (.object id c)
  | v => v

/-- Empty collections, empty text, zeros, false and the two absent values count as false. -/
def truthy (v : Value) : Bool :=
  match v.datum with
  | .null | .undefined => false
  | .bool b => b
  | .int n => n != 0
  | .float _ x => !x.isZero
  | .text s => !s.isEmpty
  | .list _ items | .tuple _ items => !items.isEmpty
  | .dict _ entries | .frozen entries => !entries.isEmpty
  | _ => true

/-- The text that a value is. -/
def text? (v : Value) : Option String :=
  match v.datum with
  | .text s => some s
  | _ => none

/-- The double that a value is. -/
def double? (v : Value) : Option Binary64 :=
  match v.datum with
  | .float _ x => some x
  | _ => none

/-! ## Numbers -/

/-- The exact value of a number; truth values count as the numbers 0 and 1. -/
def numeric? (v : Value) : Option Numeric :=
  match v.datum with
  | .bool b => some (.ofInt (if b then 1 else 0))
  | .int n => some (.ofInt n)
  | .float _ x => some (.ofBinary64 x)
  | _ => none

/-- An integer, truth values counting as 0 and 1. -/
def integer? (v : Value) : Option Int :=
  match v.datum with
  | .bool b => some (if b then 1 else 0)
  | .int n => some n
  | _ => none

/-! ## Going through a collection -/

/-- The values met when going through a value: characters of a text, items, keys, members, and the
named parts of a node as pairs.  Other values cannot be gone through. -/
def elements? (v : Value) : Option (List Value) :=
  match v.datum with
  | .text s => some (s.toList.map fun c => .text (String.singleton c))
  | .list _ items | .tuple _ items => some items
  | .dict _ entries | .frozen entries => some (entries.map Prod.fst)
  | .enumeration id name members =>
    some (members.map fun m => .member id name m.1 m.2)
  | .node _ _ parts =>
    some (parts.map fun p => .tuple .transient [.text p.1.name, p.2])
  | _ => none

end Value

end Conformance
