/-
# Conformance.Toml.Document — reading a TOML document.

A document is a sequence of statements, one a line: a key with its value, a header that opens a
table, or nothing.  Values nest, so their reader has a bound that the length of the text settles.
-/
import Conformance.Toml.Quoted
import Conformance.Toml.Scalar
import Conformance.Toml.Table

namespace Conformance

namespace Toml

/-- A value that does not nest. -/
def scalar (cs : List Char) : Result (Value × List Char) :=
  match stamp? cs with
  | some result => result
  | none =>
    match number? cs with
    | some result => result
    | none => orMalformed (special? cs)

/-- A truth value, or else a scalar. -/
def word (cs : List Char) : Result (Value × List Char) :=
  match cs with
  | 't' :: 'r' :: 'u' :: 'e' :: rest => .ok (.bool true, rest)
  | 'f' :: 'a' :: 'l' :: 's' :: 'e' :: rest => .ok (.bool false, rest)
  | _ => scalar cs

/-- What stands after a key and its equals sign. -/
def afterEquals : List Char → Result (List Char)
  | '=' :: rest => .ok (skipBlanks rest)
  | _ => .error .malformed

mutual
/-- A value. -/
def value : Nat → List Char → Result (Value × List Char)
  | 0, _ => .error .malformed
  | bound + 1, cs =>
    match cs with
    | '[' :: rest => do
      let (items, rest) ← items bound rest
      return (.list .transient items, rest)
    | '\x7b' :: rest =>
      match skipBlanks rest with
      | '\x7d' :: rest => .ok (.dict .transient [], rest)
      | rest => do
        let (table, rest) ← pairs bound ⟨[], []⟩ rest
        return (.dict .transient table.entries, rest)
    | c :: rest =>
      if c = '"' || c = '\'' then do
        let (s, rest) ← quotedText c rest
        return (.text s, rest)
      else word (c :: rest)
    | [] => .error .malformed

/-- The items of an array, after its opening bracket or a comma. -/
def items : Nat → List Char → Result (List Value × List Char)
  | 0, _ => .error .malformed
  | bound + 1, cs => do
    match ← skipSpace false cs with
    | ']' :: rest => return ([], rest)
    | cs =>
      let (v, rest) ← value bound cs
      match ← skipSpace false rest with
      | ',' :: rest =>
        let (vs, rest) ← items bound rest
        return (v :: vs, rest)
      | ']' :: rest => return ([v], rest)
      | _ => throw .malformed

/-- The pairs of a table written as a value, after its opening brace or a comma. -/
def pairs : Nat → InlineTable → List Char → Result (InlineTable × List Char)
  | 0, _, _ => .error .malformed
  | bound + 1, table, cs => do
    let (key, rest) ← readKey cs
    let (v, rest) ← value bound (← afterEquals rest)
    let table ← table.assign key v
    match skipBlanks rest with
    | '\x7d' :: rest => return (table, rest)
    | ',' :: rest => pairs bound table (skipBlanks rest)
    | _ => throw .malformed
end

/-- **`readValue`** — a value.  Each character opens or ends at most one reader of either sort. -/
def readValue (cs : List Char) : Result (Value × List Char) := value (2 * cs.length + 2) cs

/-- A key and its value. -/
def readPair (cs : List Char) : Result ((Path × Value) × List Char) := do
  let (key, rest) ← readKey cs
  let (v, rest) ← readValue (← afterEquals rest)
  return ((key, v), rest)

/-- A header, after its first bracket. -/
def readHeader (t : Tables) (cs : List Char) : Result (Tables × List Char) := do
  let t := t.endSection
  match cs with
  | '[' :: rest =>
    let (key, rest) ← readKey (skipBlanks rest)
    let t ← t.openArrayTable key
    match rest with
    | ']' :: ']' :: rest => return (t, rest)
    | _ => throw .malformed
  | rest =>
    let (key, rest) ← readKey (skipBlanks rest)
    let t ← t.openTable key
    match rest with
    | ']' :: rest => return (t, rest)
    | _ => throw .malformed

/-- May the character start a key? -/
def startsKey (c : Char) : Bool := isBare c || c == '"' || c == '\''

/-- One statement that is not empty, given its first character and the rest. -/
def statement (t : Tables) (c : Char) (rest : List Char) : Result (Tables × List Char) :=
  if startsKey c then do
    let ((key, v), rest) ← readPair (c :: rest)
    return (← t.assign key v, skipBlanks rest)
  else if c = '[' then do
    let (t, rest) ← readHeader t rest
    return (t, skipBlanks rest)
  else if c = '#' then .ok (t, c :: rest)
  else .error .malformed

/-- Statements to the end of the text, with a bound on their number. -/
def statements : Nat → Tables → List Char → Result Tables
  | 0, _, _ => .error .malformed
  | bound + 1, t, cs =>
    match skipBlanks cs with
    | [] => .ok t
    | '\n' :: rest => statements bound t rest
    | c :: rest => do
      let (t, rest) ← statement t c rest
      match ← skipComment rest with
      | [] => return t
      | '\n' :: rest => statements bound t rest
      | _ => throw .malformed

/-- **`parse`** — the contents of a document. -/
def parse (text : String) : Result Entries := do
  let cs := joinLineEnds text.toList
  let t ← statements (cs.length + 1) .empty cs
  return t.root

end Toml

end Conformance
