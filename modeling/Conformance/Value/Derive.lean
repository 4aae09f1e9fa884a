/-
# Conformance.Value.Derive — making classes and classes of constants.

A class is made from the classes it derives from, if their data can be held together and their
ancestors be put in order.  A class of constants is made from names and values: a function among them
is no constant, a name may be used once, and a constant whose value agrees with that of an earlier one
is another name for it.
-/
import Conformance.Scope
import Conformance.Value.Call

namespace Conformance

namespace Value

/-! ## Classes -/

/-- An object of the class that everything derives from. -/
def isPlainObject : Value → Bool
  | .object _ (.base .object) => true
  | _ => false

/-- A class of constants. -/
def isEnumeration : Value → Bool
  | .enumeration _ _ _ => true
  | _ => false

/-- The classes to derive from, as their data is held together one after the other. -/
def parentClasses (held : ClassRef) : List Value → Except ClassFault (List ClassRef)
  | [] => .ok []
  | .cls c :: rest => do
    let held ← held.addLayout c
    return c :: (← parentClasses held rest)
  | _ :: _ => .error .plainObject

/-- The classes that a new class derives from. -/
def parentsOf (values : List Value) : Except ClassFault (List ClassRef) := do
  if values.any fun v => !v.isClass && !v.isPlainObject then throw .notClass
  if values.any isEnumeration then throw .constants
  let parents ← parentClasses (.base .object) values
  ClassRef.assertOrdered parents
  return if parents.isEmpty then [.base .object] else parents

/-- **`newClass`** — a new class that derives from others. -/
def newClass (name : String) (values : List Value) : Build Value := do
  let parents ← Build.ofExcept ((parentsOf values).mapError .badBases)
  return .cls (.made (← Build.fresh) name parents)

end Value

namespace Enumeration

/-! ## Names -/

/-- The name stands between single underscores. -/
def isFramed (name : String) : Bool :=
  match name.toList, name.toList.reverse with
  | '_' :: a :: _ :: _, '_' :: z :: _ => a != '_' && z != '_'
  | _, _ => false

/-- The name stands between double underscores. -/
def isDoublyFramed (name : String) : Bool :=
  match name.toList, name.toList.reverse with
  | '_' :: '_' :: a :: _ :: _ :: _, '_' :: '_' :: z :: _ => a != '_' && z != '_'
  | _, _ => false

/-- The name belongs to the class alone. -/
def isOwn (enumName name : String) : Bool :=
  let start := '_' :: enumName.toList ++ ['_', '_']
  start.length < name.length && start.isPrefixOf name.toList
    && !(['_', '_'].isPrefixOf name.toList.reverse)

/-- Framed names that have a use. -/
def usedNames : List String :=
  ["_order_", "_generate_next_value_", "_numeric_repr_", "_missing_", "_ignore_", "_iter_member_",
    "_iter_member_by_value_", "_iter_member_by_def_"]

/-- Names that no constant can have. -/
def impossible : List String := ["mro", ""]

/-! ## Constants -/

/-- What is known while names are declared: the last value of every name, and the constants. -/
structure Declared where
  values : Arguments
  constants : Arguments

namespace Declared

/-- A name that is no constant. -/
def addValue (d : Declared) (name : String) (value : Value) : Declared :=
  { d with values := putName d.values name value }

/-- A constant. -/
def addConstant (d : Declared) (name : String) (value : Value) : Declared :=
  { d.addValue name value with constants := d.constants ++ [(name, value)] }

/-- A name that is used already. -/
def twice (d : Declared) (name : String) : Failure :=
  let first := (d.values.lookup name).getD .null
  .showing first (.memberTwice name first)

/-- Declare a name. -/
def declare (enumName : String) (d : Declared) (name : String) (value : Value) :
    Except Failure Declared :=
  if isOwn enumName name || isDoublyFramed name then .ok (d.addValue name value)
  else if isFramed name then
    if usedNames.contains name then .ok (d.addValue name value) else .error (.reservedName name)
  else if (d.constants.lookup name).isSome then .error (d.twice name)
  else if value.isFunction then .ok (d.addValue name value)
  else if (d.values.lookup name).isSome then .error (d.twice name)
  else .ok (d.addConstant name value)

end Declared

/-- Is the value that of a constant that is there already? -/
def isKnown (members : Arguments) (value : Value) : Bool :=
  if value.unhashable?.isSome then members.any fun m => m.2.eq value
  else members.any fun m => m.2.agrees value

/-- The constants without those that are another name for an earlier one. -/
def withoutAliases (constants : Arguments) : Arguments :=
  constants.foldl (fun members m => if isKnown members m.2 then members else members ++ [m]) []

/-- The constants of a class, from names and values. -/
def members (enumName : String) (named : Arguments) : Except Failure Arguments := do
  let d ← named.foldlM (fun d m => Declared.declare enumName d m.1 m.2) ⟨[], []⟩
  let wrong := impossible.filter fun name => (d.constants.lookup name).isSome
  if wrong.isEmpty then return withoutAliases d.constants else throw (.impossibleNames wrong)

end Enumeration

/-- **`newEnumeration`** — a new class of constants. -/
def Value.newEnumeration (name : String) (named : Arguments) : Build Value := do
  let members ← Build.ofExcept (Enumeration.members name named)
  return .enumeration (← Build.fresh) name members

end Conformance
