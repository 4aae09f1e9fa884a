/-
# Conformance.Value.Property — what can be read off a value by name.

Nodes have their parts, objects that merely have attributes have those, and named constants have a
name and a value.  A class has its name; a class of constants also has its constants.
-/
import Conformance.Value.Spelling

namespace Conformance

namespace Value

/-- A class, classes of constants among them. -/
def isClass : Value → Bool
  | .cls _ | .enumeration _ _ _ => true
  | _ => false

/-- A function. -/
def isFunction : Value → Bool
  | .fixedTest _ | .classTest _ _ => true
  | _ => false

/-- A function or a class. -/
def isCallable (v : Value) : Bool := v.isFunction || v.isClass

/-- The name of a class. -/
def className? : Value → Option String
  | .cls c => some c.name
  | .enumeration _ name _ => some name
  | _ => none

/-- The value of a named constant. -/
def constantValue? : Value → Option Value
  | .kind k => some (.text k.name)
  | .member _ _ _ value => some value
  | _ => none

/-- A name or a value, by the word for it. -/
def nameOrValue (name : String) (value : Value) (word : String) : Option Value :=
  if word = "name" then some (.text name)
  else if word = "value" then some value
  else none

/-- **`property?`** — what a value has under a name. -/
def property? (v : Value) (word : String) : Option Value :=
  match v with
  | .node _ _ parts => (parts.find? fun p => p.1.name == word).map Prod.snd
  | .lookalike _ attributes => attributes.lookup word
  | .kind k => nameOrValue (kindConstant k) (.text k.name) word
  | .member _ _ name value => nameOrValue name value word
  | .enumeration id name members =>
    if word = "__name__" then some (.text name)
    else (members.find? fun m => m.1 == word).map fun m => .member id name m.1 m.2
  | .cls c => if word = "__name__" then some (.text c.name) else none
  | _ => none

/-- The name of the sort of a value with the name of what it belongs to. -/
def fullSortName : Value → String
  | .stamp s => "datetime." ++ s.sortName
  | v => v.sortName

/-- How a message speaks of a value of which something is wanted. -/
def subject (v : Value) : String :=
  match v.className? with
  | some name => "type object '" ++ name ++ "'"
  | none => "'" ++ v.fullSortName ++ "' object"

end Value

end Conformance
