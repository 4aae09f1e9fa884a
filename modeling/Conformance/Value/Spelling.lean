/-
# Conformance.Value.Spelling — how values are written in messages.

`Value.spell` writes a value so that a reader can tell its sort: text is quoted, collections show
their brackets, nodes show their model and parts.  `Value.display` is the plainer form used when a
value stands for its own text.

An integer of too many digits cannot be written; `Value.isWritable` says whether a value holds none.
-/
import Conformance.Number.Shortest
import Conformance.Text.Decimal
import Conformance.Text.Printable
import Conformance.Value.Basic

namespace Conformance

namespace FixedTest

/-- The name of a fixed predicate. -/
def name : FixedTest → String
  | .isText => "is_str"
  | .always => "always_true"

end FixedTest

namespace Value

/-- Items between brackets, with commas. -/
def enclose (opening closing : String) (items : List String) : String :=
  opening ++ ", ".intercalate items ++ closing

/-- A tuple of one item keeps a comma, so that the brackets are not read as grouping. -/
def encloseTuple : List String → String
  | [item] => "(" ++ item ++ ",)"
  | items => enclose "(" ")" items

/-- The upper-case name of a kind. -/
def kindConstant (k : Kind) : String := k.name.toUpper

/-- The written form of a class.  One that was made is shown with the place where that happens. -/
def spellClass : ClassRef → String
  | .base b => "<class '" ++ b.name ++ "'>"
  | .made _ name _ => "<class '__main__." ++ name ++ "'>"

/-- The written form of an instance: that of the data it holds, if any. -/
def spellInstance (c : ClassRef) : String :=
  match c.layout with
  | .int => "0"
  | .bool => "False"
  | .str => Text.quoted ""
  | .float => Binary64.zero.spell
  | .object => "<" ++ c.name ++ " object>"

mutual
/-- **`spell`** — the written form of a value. -/
def spell : Value → String
  | .null => "None"
  | .undefined => "UNDEFINED"
  | .bool b => if b then "True" else "False"
  | .int n => toString n
  | .float _ x => x.spell
  | .text s => Text.quoted s
  | .kind k => "<TypeKind." ++ kindConstant k ++ ": '" ++ k.name ++ "'>"
  | .stamp s => s.spell
  | .list _ items => enclose "[" "]" (spellAll items)
  | .tuple _ items => encloseTuple (spellAll items)
  | .dict _ entries => enclose "\x7b" "\x7d" (spellEntries entries)
  | .frozen entries => enclose "mappingproxy(\x7b" "\x7d)" (spellEntries entries)
  | .fixedTest t => "<function " ++ t.name ++ ">"
  | .classTest _ _ => "<function>"
  | .cls c => spellClass c
  | .enumeration _ name _ => "<enum '" ++ name ++ "'>"
  | .member _ enumName name value =>
    "<" ++ enumName ++ "." ++ name ++ ": " ++ spell value ++ ">"
  | .object _ c => spellInstance c
  | .lookalike _ _ => "<Fake object>"
  | .node _ model parts => enclose (model.name ++ "(") ")" (spellParts parts)
termination_by structural v => v

/-- The written forms of the values of a list. -/
def spellAll : List Value → List String
  | [] => []
  | v :: rest => spell v :: spellAll rest
termination_by structural vs => vs

/-- The written forms of the entries of a mapping. -/
def spellEntries : List (Value × Value) → List String
  | [] => []
  | e :: rest => spellEntry e :: spellEntries rest
termination_by structural es => es

/-- The written form of one entry. -/
def spellEntry : Value × Value → String
  | (key, value) => spell key ++ ": " ++ spell value
termination_by structural e => e

/-- The written forms of the parts of a node. -/
def spellParts : List (Part × Value) → List String
  | [] => []
  | p :: rest => spellPart p :: spellParts rest
termination_by structural ps => ps

/-- The written form of one part. -/
def spellPart : Part × Value → String
  | (part, value) => part.name ++ "=" ++ spell value
termination_by structural p => p
end

/-! ## What can be written -/

mutual
/-- **`isWritable`** — does the written form of a value hold no integer of too many digits? -/
def isWritable : Value → Bool
  | .int n => Text.isWritableInteger n
  | .list _ items | .tuple _ items => allWritable items
  | .dict _ entries | .frozen entries => entriesWritable entries
  | .member _ _ _ value => isWritable value
  | .node _ _ parts => partsWritable parts
  | _ => true
termination_by structural v => v

/-- The same for every value of a list. -/
def allWritable : List Value → Bool
  | [] => true
  | v :: rest => isWritable v && allWritable rest
termination_by structural vs => vs

/-- The same for every entry of a mapping. -/
def entriesWritable : List (Value × Value) → Bool
  | [] => true
  | e :: rest => entryWritable e && entriesWritable rest
termination_by structural es => es

/-- The same for one entry. -/
def entryWritable : Value × Value → Bool
  | (key, value) => isWritable key && isWritable value
termination_by structural e => e

/-- The same for every part of a node. -/
def partsWritable : List (Part × Value) → Bool
  | [] => true
  | p :: rest => partWritable p && partsWritable rest
termination_by structural ps => ps

/-- The same for one part. -/
def partWritable : Part × Value → Bool
  | (_, value) => isWritable value
termination_by structural p => p
end

/-! ## The text of a value -/

/-- The text that a value stands for: a text stands for itself, a named constant for its name, a node
for its parts, and any other value for its written form. -/
def displayed (v : Value) : String :=
  match v.datum with
  | .text s => s
  | .kind k => "TypeKind." ++ kindConstant k
  | .member _ enumName name _ => enumName ++ "." ++ name
  | .node _ _ parts => " ".intercalate (spellParts parts)
  | v => v.spell

/-- The text that a value stands for, unless it would hold an integer of too many digits. -/
def display? (v : Value) : Option String :=
  match v with
  | .member .. => some v.displayed
  | _ => if v.isWritable then some v.displayed else none

/-- The written form of a list of names. -/
def spellNames (names : List String) : String :=
  enclose "[" "]" (names.map Text.quoted)

end Value

end Conformance
