/-
# Conformance.Rule.Decide — what each rule says about a pair.

Every rule gets the pair and a function `sub` that compares a pair one level further down.  It
answers true or false, or it defers (`none`).  Rules look at kinds and parts only; the order in which
they are asked is not their concern.
-/
import Conformance.Run

namespace Conformance

/-- Compare a pair one level further down. -/
abbrev Compare := Value → Value → Run Bool

namespace Value

/-- Is a single literal value of the given primitive kind? -/
def inPrimitive (v : Value) : Option Kind → Bool
  | some .string => v.isText
  | some .number => v.isFiniteNumber
  | some .boolean => v.isBool
  | some .bigint => v.isInteger
  | _ => false

/-- Does an option of a union take a literal value? -/
def optionTakes (option v : Value) : Except Fault Bool :=
  if option.isOf .literal then
    return (← option.literalValues).any fun w => w.sameValue true v
  else if option.isOf .string then pure v.isText
  else if option.isOf .number then pure v.isFiniteNumber
  else if option.isOf .boolean then pure v.isBool
  else pure false

/-- Is every value taken by one of the options? -/
def allTaken (options values : List Value) : Except Fault Bool :=
  values.allM fun v => options.anyM fun option => option.optionTakes v

/-- Is every value one value with some member? -/
def allAmong (signedZero : Bool) (members values : List Value) : Bool :=
  values.all fun v => members.any fun m => v.sameValue signedZero m

/-- Does an option of a union let the field be left out? -/
def optionOmits (option : Value) : Except Fault Bool :=
  if option.isOf .undefined then pure true
  else if option.isOf .literal then return (← option.literalValues).any isUndefined
  else pure false

/-- **`omittable`** — may a field of this type be left out?  It may if it is optional, or a union with
an option for the undefined value. -/
def omittable (v : Value) : Except Fault Bool := do
  if v.isOf .optional then return true
  if v.isOf .union then (← v.unionOptions).anyM optionOmits
  else return false

/-- The type of a field once it is known to be there. -/
def whenPresent (omits : Bool) (v : Value) : Value :=
  if omits then v.unwrap .optional else v

/-- A node that stands for the undefined value. -/
def undefinedProbe : Value := .node .transient (.of .undefined) []

/-- A node that stands for null. -/
def nullProbe : Value := .node .transient (.of .null) []

/-- An object node with the fields of both sides; the right side wins. -/
def mergedObject (left right : Value) : Value :=
  .node .transient (.of .object) [(.shape, .dict .transient (left.fields.merge right.fields))]

end Value

namespace Rule

open Value

/-! ## The rules -/

/-- A node conforms to itself. -/
def identityOf (a b : Value) : Option Bool :=
  if a.same b then some true else none

/-- Top and bottom: everything conforms to `unknown` and `any`, `never` and `any` conform to
everything, and `unknown` to nothing else. -/
def topBottomOf (a b : Value) : Option Bool :=
  if b.isOf .unknown || b.isOf .any then some true
  else if a.isOf .never || a.isOf .any then some true
  else if a.isOf .unknown then some false
  else none

/-- A wrapper as target takes what stands for absence and whatever its inner node takes. -/
def wrapperTarget (wrapper absence : Kind) (sub : Compare) (a b : Value) : Run (Option Bool) :=
  if b.isOf wrapper then
    if a.isOf absence then pure (some true)
    else
      match b.wrapped? wrapper with
      | none => pure (some false)
      | some inner => some <$> sub a inner
  else pure none

/-- A literal: value by value against a literal or an enumeration, a single value against its
primitive kind, and value by value against the options of a union. -/
def literalSourceOf (a b : Value) : Except Fault (Option Bool) := do
  if !a.isOf .literal then return none
  let values ← a.literalValues
  if values.isEmpty then return some false
  if b.isOf .literal then return some (allAmong true (← b.literalValues) values)
  if b.isOf .enum then return some (allAmong true (← b.enumValues) values)
  if values.length == 1 && values.all fun v => v.inPrimitive b.kind? then return some true
  if b.isOf .union then return some (← allTaken (← b.unionOptions) values)
  return some false

/-- An enumeration: member by member, the two zeros being one member. -/
def enumSourceOf (a b : Value) : Except Fault (Option Bool) := do
  if !a.isOf .enum then return none
  let values ← a.enumValues
  if values.isEmpty then return some false
  if b.isOf .enum then return some (allAmong false (← b.enumValues) values)
  if b.isOf .string then return some (values.all isText)
  if b.isOf .number then return some (values.all isNumber)
  if b.isOf .union then return some (← allTaken (← b.unionOptions) values)
  return some false

/-- Two primitive nodes must be of one kind. -/
def primitivePairOf (a b : Value) : Option Bool :=
  match a.kind?, b.kind? with
  | some k, some l => if k.isPrimitive && l.isPrimitive then some (k == l) else none
  | _, _ => none

/-- The undefined value conforms to itself and to a union with an option of the given kind. -/
def undefinedSourceOf (option : Kind) (a b : Value) : Except Fault (Option Bool) := do
  if !a.isOf .undefined then return none
  if b.isOf .undefined then return some true
  if b.isOf .union then return some ((← b.unionOptions).any fun o => o.isOf option)
  return some false

/-- A wrapper as source: against a like wrapper by the inner nodes; against anything else the inner
node and what stands for absence must both conform. -/
def wrapperSource (wrapper : Kind) (probe : Value) (sub : Compare) (a b : Value) :
    Run (Option Bool) :=
  if a.isOf wrapper then
    match a.wrapped? wrapper with
    | none => pure (some false)
    | some inner =>
      if b.isOf wrapper then
        match b.wrapped? wrapper with
        | none => pure (some false)
        | some target => some <$> sub inner target
      else some <$> Run.both (sub inner b) (sub probe b)
  else pure none

/-- Two arrays: by their elements. -/
def arrayPairOf (sub : Compare) (a b : Value) : Run (Option Bool) :=
  if a.isOf .array && b.isOf .array then
    match a.arrayElement?, b.arrayElement? with
    | some x, some y => some <$> sub x y
    | _, _ => pure (some false)
  else pure none

/-- An array against a union: some option that is an array must take it. -/
def arrayToUnionOf (sub : Compare) (a b : Value) : Run (Option Bool) :=
  if a.isOf .array && b.isOf .union then do
    let options ← Logged.quiet b.unionOptions
    some <$> options.anyM fun option => if option.isOf .array then sub a option else pure false
  else pure none

/-- A union never conforms to an array. -/
def unionToArrayOf (a b : Value) : Option Bool :=
  if a.isOf .union && b.isOf .array then some false else none

/-- Two tuples: as many items on both sides, and item by item. -/
def tuplePairOf (sub : Compare) (a b : Value) : Run (Option Bool) :=
  if a.isOf .tuple && b.isOf .tuple then do
    let left ← Logged.quiet a.tupleItems?
    let right ← Logged.quiet b.tupleItems?
    match left, right with
    | some xs, some ys =>
      if xs.length == ys.length then some <$> (xs.zip ys).allM fun p => sub p.1 p.2
      else pure (some false)
    | _, _ => pure (some false)
  else pure none

/-- One field of the target against the fields of the source. -/
def fieldConforms (sub : Compare) (source : Entries) (field : Value × Value) : Run Bool := do
  let omits ← Logged.quiet field.2.omittable
  match source.find? field.1 with
  | none | some .null => pure omits
  | some property =>
    let sourceOmits ← Logged.quiet property.omittable
    if !omits && sourceOmits then pure false
    else sub (property.whenPresent sourceOmits) (field.2.whenPresent omits)

/-- Two objects: field by field of the target; further fields of the source do not matter. -/
def objectPairOf (sub : Compare) (a b : Value) : Run (Option Bool) :=
  if a.isOf .object && b.isOf .object then
    some <$> b.fields.allM (fieldConforms sub a.fields)
  else pure none

/-- Two records: by their keys, then by their values. -/
def recordPairOf (sub : Compare) (a b : Value) : Run (Option Bool) :=
  if a.isOf .record && b.isOf .record then
    match a.recordKey?, a.recordValue?, b.recordKey?, b.recordValue? with
    | some k, some v, some l, some w => some <$> Run.both (sub k l) (sub v w)
    | _, _, _, _ => pure (some false)
  else pure none

/-- A union as source: there is an option, and every option conforms. -/
def unionSourceOf (sub : Compare) (a b : Value) : Run (Option Bool) :=
  if a.isOf .union then do
    let options ← Logged.quiet a.unionOptions
    if options.isEmpty then pure (some false)
    else some <$> options.allM fun option => sub option b
  else pure none

/-- A union as target: some option takes the source. -/
def unionTargetOf (sub : Compare) (a b : Value) : Run (Option Bool) :=
  if b.isOf .union then do
    let options ← Logged.quiet b.unionOptions
    some <$> options.anyM fun option => sub a option
  else pure none

/-- An intersection as source: its merged object if both sides are objects, or else one side. -/
def intersectionSourceOf (sub : Compare) (a b : Value) : Run (Option Bool) :=
  if a.isOf .intersection then
    match a.leftSide?, a.rightSide? with
    | some left, some right =>
      let sides := Run.either (sub left b) (sub right b)
      some <$> if left.isOf .object && right.isOf .object then
          Run.either (sub (mergedObject left right) b) sides
        else sides
    | _, _ => pure (some false)
  else pure none

/-- An intersection as target: both sides take the source. -/
def intersectionTargetOf (sub : Compare) (a b : Value) : Run (Option Bool) :=
  if b.isOf .intersection then
    match b.leftSide?, b.rightSide? with
    | some left, some right => some <$> Run.both (sub a left) (sub a right)
    | _, _ => pure (some false)
  else pure none

/-- Two custom nodes must be one and the same. -/
def customPairOf (a b : Value) : Option Bool :=
  if a.isOf .custom && b.isOf .custom then some (a.same b) else none

/-- Against a kind that literals widen to, only that kind is left. -/
def primitiveFallbackOf (a b : Value) : Option Bool :=
  match b.kind? with
  | some k => if k.isFallback then some (a.isOf k) else none
  | none => none

/-! ## The table -/

/-- **`decide`** — what a rule says about a pair. -/
def decide (sub : Compare) (a b : Value) : Rule → Run (Option Bool)
  | .identity => pure (identityOf a b)
  | .topBottom => pure (topBottomOf a b)
  | .optionalTarget => wrapperTarget .optional .undefined sub a b
  | .nullableTarget => wrapperTarget .nullable .null sub a b
  | .literalSource => Logged.quiet (literalSourceOf a b)
  | .enumSource => Logged.quiet (enumSourceOf a b)
  | .primitivePair => pure (primitivePairOf a b)
  | .undefinedSource => Logged.quiet (undefinedSourceOf .undefined a b)
  | .undefinedSourceNullUnion => Logged.quiet (undefinedSourceOf .null a b)
  | .optionalSource => wrapperSource .optional undefinedProbe sub a b
  | .nullableSource => wrapperSource .nullable nullProbe sub a b
  | .arrayPair => arrayPairOf sub a b
  | .arrayToUnion => arrayToUnionOf sub a b
  | .unionToArray => pure (unionToArrayOf a b)
  | .tuplePair => tuplePairOf sub a b
  | .objectPair => objectPairOf sub a b
  | .recordPair => recordPairOf sub a b
  | .unionSource => unionSourceOf sub a b
  | .unionTarget => unionTargetOf sub a b
  | .intersectionSource => intersectionSourceOf sub a b
  | .intersectionTarget => intersectionTargetOf sub a b
  | .customPair => pure (customPairOf a b)
  | .primitiveFallback => pure (primitiveFallbackOf a b)
  | .otherwise => pure (some false)

end Rule

end Conformance
