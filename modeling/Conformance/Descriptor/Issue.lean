/-
# Conformance.Descriptor.Issue — what can be wrong with the parts given for a node.

A refused node comes with a list of issues.  An issue says what is wrong and where: a path of part
names, positions and keys from the node down to the offending value.
-/
import Conformance.Descriptor.Inspect
import Conformance.Value.Spelling

namespace Conformance

/-- One step of a path into the parts of a node. -/
inductive Place where
  | name (s : String)
  | position (n : Int)
  deriving DecidableEq, Repr

/-- Why a set of values or options is refused as a whole. -/
inductive Refusal where
  | noLiteral
  | unfitLiteral (value : Value)
  | noMember
  | unfitMember (value : Value)
  | undefinedNumber
  | noOption
  /-- A value that is refused cannot even be written. -/
  | unwritable

namespace Refusal

/-- A refusal that shows a value. -/
def showing (value : Value) (refusal : Refusal) : Refusal :=
  if value.isWritable then refusal else .unwritable

/-- The wording of a refusal. -/
def message : Refusal → String
  | .noLiteral => "literal requires at least one value"
  | .unfitLiteral value => "unsupported literal value " ++ value.spell
  | .noMember => "enum requires at least one member"
  | .unfitMember value => "enum members must be str or number, got " ++ value.spell
  | .undefinedNumber => "enum members must not be NaN"
  | .noOption => "union requires at least one option"
  | .unwritable => Fault.unwritable.message

end Refusal

/-- **`Complaint`** — what is wrong with a value in its place. -/
inductive Complaint where
  | refused (reason : Refusal)
  | notDescriptor
  | unknownPart
  | missingPart
  | notText
  | notCallable
  | notClass
  | notTuple
  | notMapping
  | keyNotText
  | frozenNode

namespace Complaint

/-- The code of a complaint. -/
def code : Complaint → String
  | .refused _ => "value_error"
  | .notDescriptor => "model_type"
  | .unknownPart => "extra_forbidden"
  | .missingPart => "missing"
  | .notText => "string_type"
  | .notCallable => "callable_type"
  | .notClass => "is_type"
  | .notTuple => "tuple_type"
  | .notMapping => "dict_type"
  | .keyNotText => "invalid_key"
  | .frozenNode => "frozen_instance"

/-- The wording of a complaint. -/
def message : Complaint → String
  | .refused reason => "Value error, " ++ reason.message
  | .notDescriptor => "Input should be a valid dictionary or instance of TypeDescriptor"
  | .unknownPart => "Extra inputs are not permitted"
  | .missingPart => "Field required"
  | .notText => "Input should be a valid string"
  | .notCallable => "Input should be callable"
  | .notClass => "Input should be a type"
  | .notTuple => "Input should be a valid tuple"
  | .notMapping => "Input should be a valid dictionary"
  | .keyNotText => "Keys should be strings"
  | .frozenNode => "Instance is frozen"

end Complaint

/-- **`Issue`** — a complaint and where it applies. -/
structure Issue where
  place : List Place
  complaint : Complaint

namespace Issue

/-- The issue as seen from one step further out. -/
def within (step : Place) (issue : Issue) : Issue := { issue with place := step :: issue.place }

end Issue

/-- The step for a key: a text by itself, an integer of 64 bits as a position, anything else as it is
written, if it can be. -/
def Place.ofKey (key : Value) : Place :=
  match key.text?, key.integer? with
  | some s, _ => .name s
  | none, some n =>
    if -9223372036854775808 ≤ n ∧ n ≤ 9223372036854775807 then .position n else .name (shown key)
  | none, none => .name (shown key)
where
  shown (key : Value) : String :=
    if key.isWritable then key.spell else "<unprintable " ++ key.sortName ++ " object>"

end Conformance
