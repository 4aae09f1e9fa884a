/-
# Conformance.Failure — why an operation is refused, and computations that can be.

Each cause is a constructor; `Failure.message` holds all the wording.  `Build` is a computation that
makes objects and may fail.
-/
import Conformance.Descriptor.Inspect
import Conformance.Descriptor.Issue
import Conformance.Signature
import Conformance.Value.Property

namespace Conformance

/-- Why a text names no kind. -/
inductive NameFault where
  /-- The value, described by a word for what it should be, is not in lower snake case. -/
  | notSnake (what : String) (value : Value)
  /-- The text is well formed but no kind is called so. -/
  | unknownKind (name : String)
  /-- The value has no text, since it holds an integer of too many digits. -/
  | unwritable

namespace NameFault

/-- The wording of a name fault. -/
def message : NameFault → String
  | .notSnake what value => what ++ " must be lower_snake (got: " ++ value.spell ++ ")"
  | .unknownKind name => Text.quoted name ++ " is not a valid TypeKind"
  | .unwritable => Fault.unwritable.message

end NameFault

/-- **`Failure`** — why an operation is refused. -/
inductive Failure where
  /-- The parts given for a node of a model have issues. -/
  | invalid (model : Model) (issues : List Issue)
  /-- A fault that a comparison can have too. -/
  | broken (fault : Fault)
  /-- Something was given too many values or too few. -/
  | badCount (fault : CountFault)
  /-- A method of a list takes one value. -/
  | oneWanted (callee : String) (given : Nat)
  /-- A class cannot be made. -/
  | badBases (fault : ClassFault)
  /-- A class was wanted. -/
  | classWanted (value : Value)
  /-- A value is neither a function nor a class. -/
  | notCallable (sortName : String)
  /-- A class makes its instances from nothing. -/
  | noArguments (className : String)
  /-- A class of constants has none with this value. -/
  | noSuchConstant (enumName : String) (value : Value)
  /-- A class of constants is empty. -/
  | noConstants (enumName : String)
  /-- A value is no number and no text that spells an integer. -/
  | integerWanted (sortName : String)
  /-- A text spells no integer. -/
  | notInteger (text : String)
  /-- An integer that is to be read has too many digits. -/
  | longInteger (digits : Nat)
  /-- A value is no number and no text that spells one. -/
  | doubleWanted (sortName : String)
  /-- A text spells no number. -/
  | notDouble (text : String)
  /-- An integer is beyond all doubles. -/
  | beyondDoubles
  /-- A value is no mapping. -/
  | notMapping (sortName : String)
  /-- An element that should be a pair is no sequence. -/
  | notPair (index : Nat)
  /-- An element that should be a pair has another length. -/
  | pairLength (index length : Nat)
  /-- A value cannot be a key. -/
  | unhashable (sortName : String)
  /-- A value takes no assignment to its items. -/
  | fixedItems (sortName : String)
  /-- A position in a list is an integer. -/
  | positionWanted (sortName : String)
  /-- A list has no such position. -/
  | noPosition
  /-- An integer is too large for a position. -/
  | farPosition (sortName : String)
  /-- What is named has no such attribute. -/
  | noAttribute (subject attr : String)
  /-- A class of constants has no such attribute. -/
  | noConstant (attr : String)
  /-- A constant cannot be assigned. -/
  | fixedConstant (name : String)
  /-- The name and the value of a constant cannot be assigned. -/
  | fixedProperty (attr : String)
  /-- A given class takes no attributes. -/
  | fixedClass (className attr : String)
  /-- An attribute belongs to the model and not to its nodes. -/
  | modelAttribute (model : Model) (attr : String)
  /-- A policy's fields cannot be assigned. -/
  | fixedField (name : String)
  /-- A policy takes no further attributes. -/
  | noFurtherFields
  /-- A text was wanted. -/
  | textWanted (sortName : String)
  /-- A text names no kind. -/
  | badName (fault : NameFault)
  /-- A kind was asked for by a text that names none. -/
  | badKind (fault : NameFault)
  /-- A member of an enumeration is not in lower snake case. -/
  | badMember (enumName member : String) (value : Value)
  /-- An enumeration names a member twice. -/
  | memberTwice (member : String) (first : Value)
  /-- An enumeration has a member with a name that is kept for other uses. -/
  | reservedName (member : String)
  /-- An enumeration has members with names that no member can have. -/
  | impossibleNames (names : List String)
  /-- A name is not bound. -/
  | unbound (name : String)
  /-- A catalog has no entries. -/
  | emptyCatalog
  /-- Entries of a catalog are no descriptors. -/
  | notDescriptors (names : List String)
  /-- A depth limit is not a positive integer. -/
  | badDepth (value : Value)
  /-- Settings have no such field. -/
  | unknownSetting (name : String)
  /-- A settings file is not text. -/
  | notText
  /-- What a path leads to may not be looked at. -/
  | denied (path : String)

namespace Failure

/-- A failure that shows a value. -/
def showing (value : Value) (failure : Failure) : Failure :=
  if value.isWritable then failure else .broken .unwritable

/-- What is wanted of a value is not there. -/
def missing (v : Value) (attr : String) : Failure :=
  match v with
  | .enumeration _ _ _ => .noConstant attr
  | _ => .noAttribute v.subject attr

/-- The wording of a failure.  A report of issues has its wording in the issues. -/
def message : Failure → String
  | .invalid _ _ => ""
  | .broken fault => fault.message
  | .badCount fault => fault.message
  | .oneWanted callee given =>
    callee ++ "() takes exactly one argument (" ++ toString given ++ " given)"
  | .badBases fault => fault.message
  | .classWanted value => "instanceof requires a class, got " ++ value.spell
  | .notCallable sortName => "'" ++ sortName ++ "' object is not callable"
  | .noArguments className => className ++ "() takes no arguments"
  | .noSuchConstant enumName value => value.spell ++ " is not a valid " ++ enumName
  | .noConstants enumName => "<enum '" ++ enumName ++ "'> has no members defined"
  | .integerWanted sortName =>
    "int() argument must be a string, a bytes-like object or a real number, not '" ++ sortName ++ "'"
  | .notInteger text =>
    "invalid literal for int() with base 10: " ++
      String.ofList ((Text.quoted text).toList.take 200)
  | .longInteger digits =>
    "Exceeds the limit (4300 digits) for integer string conversion: value has " ++
      toString digits ++ " digits; use sys.set_int_max_str_digits() to increase the limit"
  | .doubleWanted sortName =>
    "float() argument must be a string or a real number, not '" ++ sortName ++ "'"
  | .notDouble text => "could not convert string to float: " ++ Text.quoted text
  | .beyondDoubles => "int too large to convert to float"
  | .notMapping sortName => "'" ++ sortName ++ "' object is not a mapping"
  | .notPair index =>
    "cannot convert dictionary update sequence element #" ++ toString index ++ " to a sequence"
  | .pairLength index length =>
    "dictionary update sequence element #" ++ toString index ++ " has length " ++ toString length ++
      "; 2 is required"
  | .unhashable sortName => "unhashable type: '" ++ sortName ++ "'"
  | .fixedItems sortName => "'" ++ sortName ++ "' object does not support item assignment"
  | .positionWanted sortName => "list indices must be integers or slices, not " ++ sortName
  | .noPosition => "list assignment index out of range"
  | .farPosition sortName => "cannot fit '" ++ sortName ++ "' into an index-sized integer"
  | .noAttribute subject attr => subject ++ " has no attribute '" ++ attr ++ "'"
  | .noConstant attr => attr
  | .fixedConstant name => "cannot reassign member " ++ Text.quoted name
  | .fixedProperty attr => "<enum 'Enum'> cannot set attribute " ++ Text.quoted attr
  | .fixedClass className attr =>
    "cannot set '" ++ attr ++ "' attribute of immutable type '" ++ className ++ "'"
  | .modelAttribute model attr =>
    "'" ++ attr ++ "' is a ClassVar of `" ++ model.name ++
      "` and cannot be set on an instance. If you want to set a value on the class, use `" ++
      model.name ++ "." ++ attr ++ " = value`."
  | .fixedField name => "cannot assign to field '" ++ name ++ "'"
  | .noFurtherFields => "super(type, obj): obj must be an instance or subtype of type"
  | .textWanted sortName => "expected string or bytes-like object, got '" ++ sortName ++ "'"
  | .badName fault | .badKind fault => fault.message
  | .badMember enumName member value =>
    enumName ++ "." ++ member ++ " has non-lower_snake value: " ++ value.spell
  | .memberTwice member first => Text.quoted member ++ " already defined as " ++ first.spell
  | .reservedName member =>
    "_sunder_ names, such as " ++ Text.quoted member ++ ", are reserved for future Enum use"
  | .impossibleNames names =>
    "invalid enum member name(s) " ++ ",".intercalate (names.map Text.quoted)
  | .unbound name => name
  | .emptyCatalog => "descriptor catalog is empty"
  | .notDescriptors names => "catalog entries are not descriptors: " ++ Value.spellNames names
  | .badDepth value => "max_depth must be a positive integer (got " ++ value.spell ++ ")"
  | .unknownSetting name =>
    "CheckSettings.__init__() got an unexpected keyword argument '" ++ name ++ "'"
  | .notText => ""
  | .denied path => "[Errno 13] Permission denied: " ++ Text.quoted path

end Failure

/-! ## Computations that make objects -/

/-- **`Build`** — a computation that makes objects: it hands out identities in order and may fail. -/
abbrev Build := StateT Nat (Except Failure)

/-- Named values, each name once. -/
abbrev Arguments := List (String × Value)

namespace Build

/-- An identity that no object has yet. -/
def fresh : Build Ident := fun n => .ok (.made n, n + 1)

/-- The result of a computation or its failure; after a failure nothing has been made. -/
def attempt {α : Type} (x : Build α) : Build (Except Failure α) := fun n =>
  match x n with
  | .ok (a, m) => .ok (.ok a, m)
  | .error failure => .ok (.error failure, n)

/-- A step that can fail and makes nothing. -/
def ofExcept {α : Type} (x : Except Failure α) : Build α := fun n => x.map fun a => (a, n)

/-- A step that can have a fault and makes nothing. -/
def ofFaulty {α : Type} (x : Except Fault α) : Build α := ofExcept (x.mapError .broken)

/-- Refuse a number of values that does not do. -/
def assertCount (s : Signature) (given : Nat) : Build Unit :=
  ofExcept ((s.assertCount given).mapError .badCount)

/-- What a value has under a name. -/
def property (v : Value) (word : String) : Build Value :=
  match v.property? word with
  | some found => pure found
  | none => throw (.missing v word)

end Build

end Conformance
