/-
# Conformance.Model — the parts of a descriptor node.

A node is made after a model: one model for each kind, and a base model that has no kind and no
parts.  The model fixes which structural parts a node may hold and in which order they are declared;
that order is also the order of error reports and of display.
-/
import Conformance.Kind

namespace Conformance

/-- **`Part`** — a named structural part of a node. -/
inductive Part where
  | values | inner | element | items | shape | keyType | valueType | options | left | right
  | label | predicate | target
  deriving DecidableEq, Repr

namespace Part

/-- Every part. -/
def all : List Part :=
  [.values, .inner, .element, .items, .shape, .keyType, .valueType, .options, .left, .right,
    .label, .predicate, .target]

/-- The name of a part. -/
def name : Part → String
  | .values => "values"
  | .inner => "inner"
  | .element => "element"
  | .items => "items"
  | .shape => "shape"
  | .keyType => "key_type"
  | .valueType => "value_type"
  | .options => "options"
  | .left => "left"
  | .right => "right"
  | .label => "label"
  | .predicate => "predicate"
  | .target => "target"

end Part

/-- **`Model`** — what a node is made after: the base model, or the model of a kind. -/
inductive Model where
  | base
  | of (kind : Kind)
  deriving DecidableEq, Repr

namespace Model

/-- Every model. -/
def all : List Model := .base :: Kind.all.map .of

/-- The kind of the nodes of a model. -/
def kind? : Model → Option Kind
  | .base => none
  | .of kind => some kind

/-- The name of a model, as reports and displays show it. -/
def name : Model → String
  | .base => "TypeDescriptor"
  | .of .string => "StringType"
  | .of .number => "NumberType"
  | .of .boolean => "BooleanType"
  | .of .bigint => "BigIntType"
  | .of .symbol => "SymbolType"
  | .of .undefined => "UndefinedKindType"
  | .of .null => "NullType"
  | .of .any => "AnyType"
  | .of .unknown => "UnknownType"
  | .of .never => "NeverType"
  | .of .literal => "LiteralType"
  | .of .enum => "EnumType"
  | .of .optional => "OptionalType"
  | .of .nullable => "NullableType"
  | .of .array => "ArrayType"
  | .of .tuple => "TupleType"
  | .of .object => "ObjectType"
  | .of .record => "RecordType"
  | .of .union => "UnionType"
  | .of .intersection => "IntersectionType"
  | .of .custom => "CustomType"

/-- The model with a given name. -/
def ofName? (s : String) : Option Model :=
  all.find? fun m => m.name == s

/-- The parts of a model, in the order of declaration. -/
def parts : Model → List Part
  | .of .literal | .of .enum => [.values]
  | .of .optional | .of .nullable => [.inner]
  | .of .array => [.element]
  | .of .tuple => [.items]
  | .of .object => [.shape]
  | .of .record => [.keyType, .valueType]
  | .of .union => [.options]
  | .of .intersection => [.left, .right]
  | .of .custom => [.label, .predicate, .target]
  | _ => []

end Model

end Conformance
