/-
# Conformance.Kind.Parse — the grammar of kind names, and kinds from values that should name them.

A kind name is written in lower snake case: one or more non-empty words over `a`-`z` and `0`-`9`,
joined by single underscores.  One newline at the very end is tolerated by the recogniser, so that a
name may pass it and still name no kind.  `isSnake` is a two-state scan over the characters; the
state remembers whether the text read so far ends inside a word.

A value that counts as false is no name at all; any other value must be a text.
-/
import Conformance.Failure
import Conformance.Kind
import Conformance.Value.Equal

namespace Conformance

namespace KindName

/-! ## The grammar -/

/-- The characters of a word: `a`-`z` and `0`-`9`, and nothing outside ASCII. -/
def isWordChar (c : Char) : Bool :=
  ('a' ≤ c && c ≤ 'z') || ('0' ≤ c && c ≤ '9')

/-- Scan from a state that says whether the text so far ends inside a word.  An underscore leaves a
word and may only stand where one ends; the text must end inside a word, or there with one newline. -/
def scan : Bool → List Char → Bool
  | inWord, [] => inWord
  | inWord, ['\n'] => inWord
  | inWord, c :: rest =>
    if isWordChar c then scan true rest
    else if c = '_' && inWord then scan false rest
    else false

/-- **`isSnake s`** — the text is in lower snake case, one final newline apart. -/
def isSnake (s : String) : Bool :=
  scan false s.toList

/-! ## Values that name kinds -/

/-- Is the value a text in lower snake case? -/
def isSnakeValue (v : Value) : Except Failure Bool :=
  match v.text? with
  | some s => .ok (isSnake s)
  | none => if v.truthy then .error (.textWanted v.sortName) else .ok false

/-- Refuse a value that is not in lower snake case. -/
def assertSnake (what : String) (v : Value) : Except Failure Unit := do
  if ← isSnakeValue v then pure () else throw (.badName (.notSnake what v))

/-- The kind that a value names. -/
def parse (v : Value) : Except Failure Kind := do
  assertSnake "type kind" v
  match Kind.ofName? v.displayed with
  | some k => pure k
  | none => throw (.badName (.unknownKind v.displayed))

/-- The kind that a value is, or that its text names. -/
def resolve (v : Value) : Except Failure Kind :=
  match v, v.display? with
  | .kind k, _ => .ok k
  | _, none => .error (.badKind .unwritable)
  | _, some s =>
    match parse (.text s) with
    | .error (.badName fault) => .error (.badKind fault)
    | result => result

/-! ## Members of enumerations -/

/-- Refuse a collection with a member whose value is not in lower snake case. -/
def assertMembers (collection : Value) : List Value → Build Unit
  | [] => pure ()
  | member :: rest => do
    let value ← Build.property member "value"
    if ← Build.ofExcept (isSnakeValue value) then assertMembers collection rest
    else
      let enumName ← Build.property collection "__name__"
      let name ← Build.property member "name"
      throw (.badMember enumName.displayed name.displayed value)

/-- Refuse the first collection with such a member. -/
def assertCollections : List Value → Build Unit
  | [] => pure ()
  | collection :: rest => do
    assertMembers collection (← Build.ofFaulty collection.gather)
    assertCollections rest

/-! ## What is known of a kind -/

/-- What is known of a value taken for a kind: the name it has, whether that name leads back to it, and
whether literals widen to it. -/
structure Facts where
  value : Value
  roundtrip : Bool
  fallback : Bool

/-- Is the value a kind with a property? -/
def isKindWith (property : Kind → Bool) : Value → Bool
  | .kind k => property k
  | _ => false

/-- What is known of a value taken for a kind, which must be able to be a key: whether it is
primitive, and unless it is null the rest. -/
def factsOf (v : Value) : Build (Bool × Option Facts) := do
  if let some sortName := v.unhashable? then throw (.unhashable sortName)
  let primitive := isKindWith Kind.isPrimitive v
  if v.same .null then return (primitive, none)
  let value ← Build.property v "value"
  let k ← Build.ofExcept (parse value)
  return (primitive, some ⟨value, (Value.kind k).same v, isKindWith Kind.isFallback v⟩)

end KindName

end Conformance
