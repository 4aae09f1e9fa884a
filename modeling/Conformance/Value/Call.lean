/-
# Conformance.Value.Call — calling functions and classes.

Functions are the fixed predicates and the tests for instances of a class.  A class called with no
values makes an instance; a class of data called with one value makes its data from it, and a class of
constants finds the constant with that value.
-/
import Conformance.Failure
import Conformance.Value.Convert
import Conformance.Value.Equal

namespace Conformance

namespace FixedTest

/-- A fixed predicate takes one value. -/
def signature (t : FixedTest) : Signature := ⟨t.name, ["v"], some 0⟩

end FixedTest

namespace Value

/-! ## Instances -/

/-- The class that a value is a direct instance of, as far as classes can be named. -/
def classOf : Value → ClassRef
  | .bool _ => .base .bool
  | .int _ => .base .int
  | .float _ _ => .base .float
  | .text _ => .base .str
  | .object _ c => c
  | _ => .base .object

/-- Is the value an instance of the class? -/
def isInstance (v c : Value) : Bool :=
  match c, v with
  | .cls c, _ => v.classOf.derives c
  | .enumeration id _ _, .member owner _ _ _ => id.same owner
  | _, _ => false

/-- What a fixed predicate says about a value. -/
def fixedAnswer (t : FixedTest) (v : Value) : Bool :=
  match t with
  | .isText => v.isText
  | .always => true

/-- A new instance of a class. -/
def newInstance (c : ClassRef) : Build Value :=
  match c with
  | .base .int => pure (.int 0)
  | .base .bool => pure (.bool false)
  | .base .str => pure (.text "")
  | .base .float => do return .float (← Build.fresh) .zero
  | c => do return .object (← Build.fresh) c

/-- The data of a class, made from a value. -/
def dataFrom (c : ClassRef) (v : Value) : Build Value :=
  match c.layout, v with
  | .int, _ => do return .int (← Build.ofExcept v.toInteger)
  | .bool, _ => pure (.bool v.truthy)
  | .float, .float id x => pure (.float id x)
  | .float, _ => do
    let x ← Build.ofExcept v.toDouble
    return .float (← Build.fresh) x
  | .str, _ => do return .text (← Build.ofExcept v.toText)
  | .object, _ => throw (.noArguments c.name)

/-- Call a class. -/
def instantiate (c : ClassRef) : List Value → Build Value
  | [] => newInstance c
  | [v] => dataFrom c v
  | values =>
    if c.layout = .object then throw (.noArguments c.name)
    else throw (.badCount (.tooMany c.layout.name 0 1 values.length))

/-! ## Constants -/

/-- The constant of a class that is or has a value. -/
def constant? (id : Ident) (enumName : String) (members : List (String × Value)) (v : Value) :
    Option Value :=
  if v.isInstance (.enumeration id enumName members) then some v
  else
    let isValue (m : String × Value) : Bool :=
      if v.unhashable?.isSome then m.2.eq v else m.2.agrees v
    (members.find? isValue).map fun m => .member id enumName m.1 m.2

/-- Call a class of constants. -/
def findConstant (id : Ident) (enumName : String) (members : List (String × Value)) (v : Value) :
    Except Failure Value :=
  match constant? id enumName members v with
  | some found => .ok found
  | none =>
    if members.isEmpty then .error (.noConstants enumName)
    else .error (.showing v (.noSuchConstant enumName v))

/-- A class of constants is called with a value. -/
def constantSignature : Signature := ⟨"EnumType.__call__", ["value"], some 0⟩

/-! ## Calls -/

/-- **`call`** — call a value with others. -/
def call (callee : Value) (values : List Value) : Build Value := do
  match callee with
  | .fixedTest t =>
    Build.assertCount t.signature values.length
    return .bool (fixedAnswer t (values.headD .null))
  | .classTest _ target => return .bool ((values.headD .null).isInstance target)
  | .cls c => instantiate c values
  | .enumeration id name members =>
    Build.assertCount constantSignature values.length
    Build.ofExcept (findConstant id name members (values.headD .null))
  | _ => throw (.notCallable callee.sortName)

end Value

end Conformance
