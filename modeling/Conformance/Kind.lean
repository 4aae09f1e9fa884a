/-
# Conformance.Kind — the closed vocabulary of descriptor kinds.

A type descriptor carries exactly one `Kind`; a node without one is not a descriptor that the rules
understand.  The vocabulary is closed: `Kind.all` lists it once, in the order in which it is shown,
and `Kind.mem_all` says that nothing is left out.  Two groups of kinds matter to the rules: the base
primitives, compared by kind alone, and the three primitives of the last-resort comparison.
-/

namespace Conformance

/-- **`Kind`** — the discriminant of a type descriptor: base primitives, unit types, top and bottom,
value sets, wrappers, containers, combinators, and predicates with no structure. -/
inductive Kind where
  | string | number | boolean | bigint | symbol
  | undefined | null
  | any | unknown | never
  | literal | enum
  | optional | nullable
  | array | tuple | object | record
  | union | intersection
  | custom
  deriving DecidableEq, Repr

namespace Kind

/-- Every kind, in the order of the vocabulary. -/
def all : List Kind :=
  [.string, .number, .boolean, .bigint, .symbol, .undefined, .null, .any, .unknown, .never,
    .literal, .enum, .optional, .nullable, .array, .tuple, .object, .record, .union, .intersection,
    .custom]

theorem mem_all (k : Kind) : k ∈ all := by
  cases k <;> decide

/-- The serialized name of a kind, in lower snake case. -/
def name : Kind → String
  | .string => "string"
  | .number => "number"
  | .boolean => "boolean"
  | .bigint => "bigint"
  | .symbol => "symbol"
  | .undefined => "undefined"
  | .null => "null"
  | .any => "any"
  | .unknown => "unknown"
  | .never => "never"
  | .literal => "literal"
  | .enum => "enum"
  | .optional => "optional"
  | .nullable => "nullable"
  | .array => "array"
  | .tuple => "tuple"
  | .object => "object"
  | .record => "record"
  | .union => "union"
  | .intersection => "intersection"
  | .custom => "custom"

/-- The kind with a given serialized name. -/
def ofName? (s : String) : Option Kind :=
  all.find? fun k => k.name == s

/-! ## Groups -/

/-- The base primitives: two of them conform exactly when they are the same kind. -/
def isPrimitive : Kind → Bool
  | .string | .number | .boolean | .bigint | .symbol => true
  | _ => false

/-- The targets of the last-resort comparison by kind. -/
def isFallback : Kind → Bool
  | .string | .number | .boolean => true
  | _ => false

theorem isPrimitive_of_isFallback {k : Kind} (h : k.isFallback = true) : k.isPrimitive = true := by
  cases k <;> simp_all [isFallback, isPrimitive]

/-! ## Names and kinds determine each other -/

theorem ofName?_name (k : Kind) : ofName? k.name = some k := by
  cases k <;> decide

theorem ofName?_eq_some_iff {s : String} {k : Kind} : ofName? s = some k ↔ s = k.name := by
  constructor
  · intro h
    have found := List.find?_some h
    exact (beq_iff_eq.mp found).symm
  · rintro rfl
    exact ofName?_name k

end Kind

end Conformance
