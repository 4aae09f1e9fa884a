/-
# Conformance.Descriptor.Inspection — everything that can be read off a value taken for a node.
-/
import Conformance.Descriptor.Inspect

namespace Conformance

namespace Value

/-- A value gone through, as a tuple; a tuple is its own. -/
def asTuple (v : Value) : Except Fault Value :=
  match v with
  | .tuple id items => .ok (.tuple id items)
  | _ => v.gather.map (.tuple .transient)

/-- A sequence part as a tuple; a part that counts as false is an empty one. -/
def sequenceTuple (p : Part) (v : Value) : Except Fault Value :=
  match v.part? p with
  | none => .ok (.tuple .transient [])
  | some part => if part.truthy then part.asTuple else .ok (.tuple .transient [])

end Value

/-- **`Inspection`** — the kind of a value and what each accessor reads off it. -/
structure Inspection where
  kind? : Option Kind
  withoutOptional : Value
  withoutNullable : Value
  literalValues : Except Fault Value
  enumValues : Except Fault Value
  arrayElement : Value
  tupleItems : Except Fault Value
  objectShape : Value
  recordKeyValue : Value
  unionOptions : Except Fault Value
  intersectionSides : Value

namespace Inspection

/-- The sequence part of a node of a kind; other values have an empty one. -/
def sequenceOf (k : Kind) (p : Part) (v : Value) : Except Fault Value :=
  if v.isOf k then v.sequenceTuple p else .ok (.tuple .transient [])

/-- Two parts that may be missing. -/
def pair (x y : Option Value) : Value := .tuple .transient [x.getD .null, y.getD .null]

/-- The items of a tuple node, or null. -/
def itemsOf (v : Value) : Except Fault Value :=
  if v.isOf .tuple then
    match v.part? .items with
    | none => .ok .null
    | some items => items.asTuple
  else .ok .null

/-- Read everything off a value. -/
def of (v : Value) : Inspection where
  kind? := v.kind?
  withoutOptional := v.unwrap .optional
  withoutNullable := v.unwrap .nullable
  literalValues := sequenceOf .literal .values v
  enumValues := sequenceOf .enum .values v
  arrayElement := v.arrayElement?.getD .null
  tupleItems := itemsOf v
  objectShape := v.shape?.getD (.frozen [])
  recordKeyValue := pair v.recordKey? v.recordValue?
  unionOptions := sequenceOf .union .options v
  intersectionSides := pair v.leftSide? v.rightSide?

/-- The kinds that the value is of: one or none. -/
def predicates (i : Inspection) : List Kind := Kind.all.filter fun k => i.kind? == some k

end Inspection

end Conformance
