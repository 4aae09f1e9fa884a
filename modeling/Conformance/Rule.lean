/-
# Conformance.Rule — the names of the rules, in order of precedence.

A pair of descriptors is decided by the first rule of the table that does not defer.
-/

namespace Conformance

/-- **`Rule`** — a rule of the decision table. -/
inductive Rule where
  | identity | topBottom | optionalTarget | nullableTarget | literalSource | enumSource
  | primitivePair | undefinedSource | undefinedSourceNullUnion | optionalSource | nullableSource
  | arrayPair | arrayToUnion | unionToArray | tuplePair | objectPair | recordPair | unionSource
  | unionTarget | intersectionSource | intersectionTarget | customPair | primitiveFallback
  | otherwise
  deriving DecidableEq, Repr

namespace Rule

/-- Every rule, the first to be asked first. -/
def all : List Rule :=
  [.identity, .topBottom, .optionalTarget, .nullableTarget, .literalSource, .enumSource,
    .primitivePair, .undefinedSource, .undefinedSourceNullUnion, .optionalSource, .nullableSource,
    .arrayPair, .arrayToUnion, .unionToArray, .tuplePair, .objectPair, .recordPair, .unionSource,
    .unionTarget, .intersectionSource, .intersectionTarget, .customPair, .primitiveFallback,
    .otherwise]

theorem mem_all (r : Rule) : r ∈ all := by cases r <;> decide

/-- The name of a rule. -/
def name : Rule → String
  | .identity => "identity"
  | .topBottom => "top_bottom"
  | .optionalTarget => "optional_target"
  | .nullableTarget => "nullable_target"
  | .literalSource => "literal_source"
  | .enumSource => "enum_source"
  | .primitivePair => "primitive_pair"
  | .undefinedSource => "undefined_source"
  | .undefinedSourceNullUnion => "undefined_source_null_union"
  | .optionalSource => "optional_source"
  | .nullableSource => "nullable_source"
  | .arrayPair => "array_pair"
  | .arrayToUnion => "array_to_union"
  | .unionToArray => "union_to_array"
  | .tuplePair => "tuple_pair"
  | .objectPair => "object_pair"
  | .recordPair => "record_pair"
  | .unionSource => "union_source"
  | .unionTarget => "union_target"
  | .intersectionSource => "intersection_source"
  | .intersectionTarget => "intersection_target"
  | .customPair => "custom_pair"
  | .primitiveFallback => "primitive_fallback"
  | .otherwise => "otherwise"

/-- The rule with a name. -/
def ofName? (s : String) : Option Rule := all.find? fun r => r.name == s

end Rule

end Conformance
