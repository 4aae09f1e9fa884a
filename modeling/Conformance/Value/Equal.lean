/-
# Conformance.Value.Equal — when two values are equal, and when they are one value.

Two comparisons stand side by side.  `Value.eq` is ordinary equality: numbers by what they amount to,
truth values among them; collections by their contents; everything else by identity.
`Value.sameValue` is the stricter comparison of literal values: a truth value equals only a truth
value, a number that is not a number equals itself, and the two zeros differ unless the caller says
otherwise.

Ordinary equality is not reflexive: a number that is not a number differs from itself.  But what
collections hold is compared with `agrees`, for which one object agrees with itself; so a collection
equals itself whatever it holds.

A key must not change, nor hold anything that can.  `nesting` says how far down an equality may have to
look.
-/
import Conformance.Value.Basic

namespace Conformance

/-- The entries of a mapping, in order of insertion. -/
abbrev Entries := List (Value × Value)

namespace Value

/-- The entries of a value that is a mapping, read-only or not. -/
def entries? : Value → Option Entries
  | .dict _ entries | .frozen entries => some entries
  | _ => none

/-- Equality of values that hold no others: numbers by amount, texts by their characters, the rest by
identity. -/
def eqPlain (a b : Value) : Bool :=
  match a.numeric?, b.numeric? with
  | some p, some q => p.eq q
  | _, _ =>
    match a.text?, b.text? with
    | some s, some t => s == t
    | _, _ => a.same b

mutual
/-- **`eq`** — ordinary equality of values. -/
def eq (a b : Value) : Bool :=
  match a with
  | .list i xs =>
    match b with
    | .list j ys => i.same j || eqAll xs ys
    | _ => false
  | .tuple i xs =>
    match b with
    | .tuple j ys => i.same j || eqAll xs ys
    | _ => false
  | .dict i es =>
    match b with
    | .dict j fs => i.same j || (es.length == fs.length && eqWithin es fs)
    | .frozen fs => es.length == fs.length && eqWithin es fs
    | _ => false
  | .frozen es =>
    match b.entries? with
    | some fs => es.length == fs.length && eqWithin es fs
    | none => false
  | .node i m ps =>
    match b with
    | .node j n qs => i.same j || (m == n && eqParts ps qs)
    | _ => false
  | a => a.eqPlain b
termination_by structural a

/-- Equality item by item. -/
def eqAll (xs ys : List Value) : Bool :=
  match xs, ys with
  | [], [] => true
  | x :: xs, y :: ys => (x.same y || eq x y) && eqAll xs ys
  | _, _ => false
termination_by structural xs

/-- Every entry of the first list has an equal key in the second, with an equal value. -/
def eqWithin (es fs : List (Value × Value)) : Bool :=
  match es with
  | [] => true
  | e :: es => eqEntry e fs && eqWithin es fs
termination_by structural es

/-- The first entry of the list with an equal key has an equal value. -/
def eqEntry (e : Value × Value) (fs : List (Value × Value)) : Bool :=
  match e with
  | (k, v) =>
    match fs.find? fun f => k.same f.1 || eq k f.1 with
    | some f => v.same f.2 || eq v f.2
    | none => false
termination_by structural e

/-- Equality part by part. -/
def eqParts (ps qs : List (Part × Value)) : Bool :=
  match ps, qs with
  | [], [] => true
  | p :: ps, q :: qs => eqPart p q && eqParts ps qs
  | _, _ => false
termination_by structural ps

/-- The same part with an equal value. -/
def eqPart (p q : Part × Value) : Bool :=
  match p with
  | (name, v) => name == q.1 && (v.same q.2 || eq v q.2)
termination_by structural p
end

/-- **`agrees`** — do two values agree as what collections hold, or as keys?  They do if they are one
object or equal. -/
def agrees (a b : Value) : Bool := a.same b || a.eq b

/-! ## One value -/

/-- A number with a minus sign, which tells the two zeros apart. -/
def hasMinus (v : Value) : Bool :=
  match v.datum with
  | .int n => n < 0
  | .float _ x => x.negative
  | _ => false

/-- Numbers agree when they amount to the same; zeros, if their signs count, must agree in sign. -/
def sameNumber (signedZero : Bool) (a b : Value) (p q : Numeric) : Bool :=
  p == q && (!signedZero || p != .finite 0 || a.hasMinus == b.hasMinus)

/-- Values that can be equal are of one sort unless one is a mapping that can be written and the other
a read-only one, or one is an instance of a class that the other is no direct instance of. -/
def oneSort : Value → Value → Bool
  | .dict _ _, .frozen _ => false
  | .frozen _, .dict _ _ => false
  | .object _ c, .object _ d => c.same d
  | .object _ _, _ => false
  | _, .object _ _ => false
  | _, _ => true

/-- **`sameValue`** — are two literal values one value?  A truth value is no number, numbers are
compared exactly, and other values must be of one sort. -/
def sameValue (signedZero : Bool) (a b : Value) : Bool :=
  match a, b with
  | .bool p, .bool q => p == q
  | .bool _, _ => false
  | _, .bool _ => false
  | _, _ =>
    match a.numeric?, b.numeric? with
    | some p, some q => sameNumber signedZero a b p q
    | _, _ => a.oneSort b && a.eq b

/-! ## Sorts of literal values -/

/-- A number, which a truth value is not. -/
def isNumber (v : Value) : Bool :=
  match v.datum with
  | .int _ | .float _ _ => true
  | _ => false

/-- A number that is neither infinite nor undefined. -/
def isFiniteNumber (v : Value) : Bool :=
  match v.datum with
  | .int _ => true
  | .float _ x => x.isFinite
  | _ => false

/-- A text. -/
def isText (v : Value) : Bool := v.text?.isSome

/-- A truth value. -/
def isBool : Value → Bool
  | .bool _ => true
  | _ => false

/-- An integer, which a truth value is not. -/
def isInteger (v : Value) : Bool :=
  match v.datum with
  | .int _ => true
  | _ => false

/-- The absent value that is not null. -/
def isUndefined : Value → Bool
  | .undefined => true
  | _ => false

/-- May the value stand in a literal descriptor? -/
def isLiteral (v : Value) : Bool :=
  match v.datum with
  | .null | .undefined | .bool _ | .int _ | .float _ _ | .text _ => true
  | _ => false

/-- May the value stand in an enumeration descriptor, as far as its sort goes? -/
def isEnumerable (v : Value) : Bool := v.isText || v.isNumber

/-! ## Collections inside each other -/

mutual
/-- **`nesting`** — how many collections stand inside each other in a value, nodes among them. -/
def nesting : Value → Nat
  | .list _ items => nestingItems items + 1
  | .tuple _ items => nestingItems items + 1
  | .dict _ entries => nestingEntries entries + 1
  | .frozen entries => nestingEntries entries + 1
  | .node _ _ parts => nestingParts parts + 1
  | _ => 0
termination_by structural v => v

/-- The same over all items. -/
def nestingItems : List Value → Nat
  | [] => 0
  | v :: rest => max (nesting v) (nestingItems rest)
termination_by structural vs => vs

/-- The same over all entries. -/
def nestingEntries : List (Value × Value) → Nat
  | [] => 0
  | e :: rest => max (nestingEntry e) (nestingEntries rest)
termination_by structural es => es

/-- The same for one entry. -/
def nestingEntry : Value × Value → Nat
  | (key, value) => max (nesting key) (nesting value)
termination_by structural e => e

/-- The same over all parts. -/
def nestingParts : List (Part × Value) → Nat
  | [] => 0
  | p :: rest => max (nestingPart p) (nestingParts rest)
termination_by structural ps => ps

/-- The same for one part. -/
def nestingPart : Part × Value → Nat
  | (_, v) => nesting v
termination_by structural p => p
end

theorem nesting_of_isLiteral {v : Value} (h : v.isLiteral = true) : v.nesting = 0 := by
  cases v <;> first | rfl | cases h

/-! ## Keys -/

mutual
/-- The sort of the first thing in a value that keeps it from being a key. -/
def unhashable? : Value → Option String
  | .list _ _ => some "list"
  | .dict _ _ => some "dict"
  | .frozen _ => some "mappingproxy"
  | .tuple _ items => unhashableItem? items
  | .node _ _ parts => unhashablePart? parts
  | _ => none
termination_by structural v => v

/-- The same for the first item that is no key. -/
def unhashableItem? : List Value → Option String
  | [] => none
  | v :: rest => (unhashable? v).or (unhashableItem? rest)
termination_by structural vs => vs

/-- The same for the first part that is no key. -/
def unhashablePart? : List (Part × Value) → Option String
  | [] => none
  | p :: rest => (unhashableIn? p).or (unhashablePart? rest)
termination_by structural ps => ps

/-- The same for one part. -/
def unhashableIn? : Part × Value → Option String
  | (_, v) => unhashable? v
termination_by structural p => p
end

end Value

namespace Entries

/-- The value under a key. -/
def find? (entries : Entries) (key : Value) : Option Value :=
  (List.find? (fun e => e.1.agrees key) entries).map Prod.snd

/-- Put a value under a key: a known key keeps its place, a new one goes last. -/
def put : Entries → Value → Value → Entries
  | [], key, value => [(key, value)]
  | e :: rest, key, value =>
    if e.1.agrees key then (e.1, value) :: rest else e :: put rest key value

/-- Put every entry of the second mapping into the first. -/
def merge (entries more : Entries) : Entries :=
  more.foldl (fun es e => es.put e.1 e.2) entries

end Entries

end Conformance
