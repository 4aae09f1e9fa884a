/-
# Conformance.Class — the identity of objects, and their classes.

Objects have an identity beside their contents.  Identities are handed out in order; an object that
exists only while it is looked at has none to speak of, and is the same as no other.

A few classes are given; others are made with a name and parents.  An instance of a class holds the
data of the given class that its class derives from, and the data of two given classes cannot be held
at once.  `lineage` puts a class and its ancestors into one order in which every class stands before
its parents and the parents of a class keep their order; where no such order exists, the class cannot
be made.

`solid` is the ancestor that fixes how an instance is laid out.  A class derived from integers adds
something of its own to their layout, once; other classes add nothing.
-/
namespace Conformance

/-! ## Identity -/

/-- **`Ident`** — the identity of an object: the number under which it was made, or none to speak
of. -/
inductive Ident where
  | made (n : Nat)
  | transient
  deriving DecidableEq, Repr

namespace Ident

/-- Two identities denote one object. -/
def same : Ident → Ident → Bool
  | .made m, .made n => m == n
  | _, _ => false

theorem same_iff {i j : Ident} : i.same j = true ↔ ∃ n, i = .made n ∧ j = .made n := by
  cases i with
  | transient => simp [same]
  | made m =>
    cases j with
    | transient => simp [same]
    | made n => simp [same, eq_comm (a := n)]

end Ident

/-! ## Classes -/


/-- The classes that need not be made. -/
inductive BaseClass where
  | int | bool | str | float | object
  deriving DecidableEq, Repr

/-- A class: one that is given, or one made with a name and the classes it derives from. -/
inductive ClassRef where
  | base (b : BaseClass)
  | made (id : Ident) (name : String) (parents : List ClassRef)

namespace BaseClass

/-- The name of a given class. -/
def name : BaseClass → String
  | .int => "int"
  | .bool => "bool"
  | .str => "str"
  | .float => "float"
  | .object => "object"

/-- The given class with a name. -/
def ofName? (s : String) : Option BaseClass :=
  [.int, .bool, .str, .float, .object].find? fun b => b.name == s

/-- A truth value is an integer, and everything is an object. -/
def derives : BaseClass → BaseClass → Bool
  | _, .object => true
  | .bool, .int => true
  | b, c => b == c

/-- A given class and its ancestors. -/
def lineage : BaseClass → List BaseClass
  | .object => [.object]
  | .bool => [.bool, .int, .object]
  | b => [b, .object]

end BaseClass

namespace ClassRef

/-- The name of a class. -/
def name : ClassRef → String
  | .base b => b.name
  | .made _ name _ => name

/-- Two references denote one class. -/
def same : ClassRef → ClassRef → Bool
  | .base b, .base c => b == c
  | .made i _ _, .made j _ _ => i.same j
  | _, _ => false

mutual
/-- Is the first class the second or derived from it? -/
def derives : ClassRef → ClassRef → Bool
  | .base b, .base c => b.derives c
  | .base _, .made _ _ _ => false
  | .made i name parents, c =>
    same (.made i name parents) c || same (.base .object) c || anyDerives parents c
termination_by structural c => c

/-- Is one of the classes the given one or derived from it? -/
def anyDerives : List ClassRef → ClassRef → Bool
  | [], _ => false
  | parent :: rest, c => derives parent c || anyDerives rest c
termination_by structural cs => cs
end

/-! ## What instances hold -/

mutual
/-- The given class whose data an instance holds. -/
def layout : ClassRef → BaseClass
  | .base b => b
  | .made _ _ parents => layoutAmong parents
termination_by structural c => c

/-- The same for an instance of several classes: the first that has data to hold. -/
def layoutAmong : List ClassRef → BaseClass
  | [] => .object
  | parent :: rest =>
    match layout parent with
    | .object => layoutAmong rest
    | b => b
termination_by structural cs => cs
end

/-- Of two layouts, the one that includes the other. -/
def widerLayout? (held next : ClassRef) : Option ClassRef :=
  if held.derives next then some held
  else if next.derives held then some next
  else none

mutual
/-- The ancestor that fixes the layout of instances. -/
def solid : ClassRef → ClassRef
  | .base b => .base b
  | .made id name parents =>
    match solidAmong (.base .object) parents with
    | .base .int => .made id name parents
    | c => c
termination_by structural c => c

/-- The same for several classes, beside a layout that is held already. -/
def solidAmong (held : ClassRef) : List ClassRef → ClassRef
  | [] => held
  | parent :: rest => solidAmong ((widerLayout? held (solid parent)).getD held) rest
termination_by structural cs => cs
end

/-! ## The order of ancestors -/

/-- Does the class stand in one of the lists, but not first? -/
def standsLater (c : ClassRef) (lists : List (List ClassRef)) : Bool :=
  lists.any fun l => l.tail.any c.same

/-- The first class that stands first in one of the lists and later in none. -/
def nextInLine? (lists : List (List ClassRef)) : Option ClassRef :=
  lists.findSome? fun l => l.head?.filter fun c => !c.standsLater lists

/-- A list without the class at its head. -/
def withoutHead (c : ClassRef) : List ClassRef → List ClassRef
  | [] => []
  | d :: rest => if c.same d then rest else d :: rest

/-- The classes without repetition, in the order in which they first occur. -/
def distinct (cs : List ClassRef) : List ClassRef :=
  cs.foldl (fun known c => if known.any c.same then known else known ++ [c]) []

/-- Merge lists into one that keeps the order of each, taking so many classes at most; where that
cannot be done, the classes that stood first when it failed. -/
def mergeLines : Nat → List (List ClassRef) → Except (List ClassRef) (List ClassRef)
  | 0, _ => .ok []
  | count + 1, lists =>
    if lists.all List.isEmpty then .ok []
    else
      match nextInLine? lists with
      | none => .error (distinct (lists.filterMap List.head?))
      | some c => (mergeLines count (lists.map (withoutHead c))).map (c :: ·)

/-- Merge the lines of parents with the order of the parents themselves. -/
def mergeParents (lines : List (List ClassRef)) (parents : List ClassRef) :
    Except (List ClassRef) (List ClassRef) :=
  let lists := lines ++ [parents]
  mergeLines lists.flatten.length lists

mutual
/-- **`lineage`** — a class and its ancestors, every class before its parents. -/
def lineage : ClassRef → List ClassRef
  | .base b => b.lineage.map .base
  | .made id name parents =>
    .made id name parents :: (mergeParents (lineages parents) parents).toOption.getD []
termination_by structural c => c

/-- The lineages of several classes. -/
def lineages : List ClassRef → List (List ClassRef)
  | [] => []
  | parent :: rest => lineage parent :: lineages rest
termination_by structural cs => cs
end

end ClassRef

/-! ## Making classes -/

/-- **`ClassFault`** — why a class cannot be made from what it should derive from. -/
inductive ClassFault where
  /-- Something it should derive from is no class. -/
  | notClass
  /-- Something it should derive from is a plain object. -/
  | plainObject
  /-- A class of constants has no further classes. -/
  | constants
  /-- A given class has no further classes. -/
  | closed (name : String)
  /-- The data of two classes cannot be held at once. -/
  | layoutConflict
  /-- A class is named twice. -/
  | twice (name : String)
  /-- The ancestors cannot be put into one order; these come first. -/
  | disorder (names : List String)
  deriving DecidableEq, Repr

namespace ClassFault

/-- The wording of a fault. -/
def message : ClassFault → String
  | .notClass => "metaclass conflict: the metaclass of a derived class must be a (non-strict) " ++
      "subclass of the metaclasses of all its bases"
  | .plainObject => "bases must be types"
  | .constants => "'dict' object has no attribute '_member_names'"
  | .closed name => "type '" ++ name ++ "' is not an acceptable base type"
  | .layoutConflict => "multiple bases have instance lay-out conflict"
  | .twice name => "duplicate base class " ++ name
  | .disorder names =>
    "Cannot create a consistent method resolution\norder (MRO) for bases " ++ ", ".intercalate names

end ClassFault

namespace ClassRef

/-- A layout that holds one class more. -/
def addLayout (held parent : ClassRef) : Except ClassFault ClassRef :=
  match parent with
  | .base .bool => .error (.closed parent.name)
  | _ =>
    match widerLayout? held parent.solid with
    | some wider => .ok wider
    | none => .error .layoutConflict

/-- The first class that is named twice. -/
def repeated? : List ClassRef → Option ClassRef
  | [] => none
  | c :: rest => if rest.any c.same then some c else repeated? rest

/-- The classes can be put into one order. -/
def assertOrdered (parents : List ClassRef) : Except ClassFault Unit :=
  match repeated? parents with
  | some c => .error (.twice c.name)
  | none =>
    match mergeParents (lineages parents) parents with
    | .ok _ => .ok ()
    | .error first => .error (.disorder (first.map name))

end ClassRef

end Conformance
