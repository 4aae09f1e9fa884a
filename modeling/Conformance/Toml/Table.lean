/-
# Conformance.Toml.Table — tables while a document is being read.

A key is a path of names.  Besides their contents, tables have a history: a table that was opened by a
header may not be opened again, one that was made by dotted keys may not be opened by a later header,
and what was written as a value may not be added to.  The history is kept as sets of paths.
-/
import Conformance.Toml.Basic

namespace Conformance

namespace Toml

/-- A path of names. -/
abbrev Path := List String

namespace Path

/-- Does the first path lead to the second or to something on the way to it? -/
def leadsTo : Path → Path → Bool
  | [], _ => true
  | _ :: _, [] => false
  | a :: p, b :: q => a == b && leadsTo p q

/-- The paths to what a path passes on its way. -/
def onTheWay (p : Path) : List Path := (List.range (p.length - 1)).map fun n => p.take (n + 1)

end Path

/-! ## Contents -/

/-- The value under a name. -/
def under? (entries : Entries) (name : String) : Option Value := entries.find? (.text name)

/-- Put a value under a name. -/
def putUnder (entries : Entries) (name : String) (v : Value) : Entries :=
  entries.put (.text name) v

/-- Change the table at a path, making the tables on the way that are not there.  If allowed, an array
of tables on the way stands for its last table. -/
def alter (throughArrays : Bool) (change : Entries → Option Entries) :
    Path → Entries → Option Entries
  | [], entries => change entries
  | name :: path, entries =>
    match under? entries name with
    | none => (alter throughArrays change path []).map fun es => putUnder entries name (.dict .transient es)
    | some (.dict id sub) =>
      (alter throughArrays change path sub).map fun es => putUnder entries name (.dict id es)
    | some (.list id items) =>
      match throughArrays, items.getLast? with
      | true, some (.dict j sub) =>
        (alter throughArrays change path sub).map fun es =>
          putUnder entries name (.list id (items.dropLast ++ [.dict j es]))
      | _, _ => none
    | some _ => none

/-- A value under a name that is not taken. -/
def putNew (name : String) (v : Value) (entries : Entries) : Option Entries :=
  match under? entries name with
  | some _ => none
  | none => some (putUnder entries name v)

/-- One more table in the array under a name. -/
def appendTable (name : String) (entries : Entries) : Option Entries :=
  match under? entries name with
  | none => some (putUnder entries name (.list .transient [.dict .transient []]))
  | some (.list id items) =>
    some (putUnder entries name (.list id (items ++ [.dict .transient []])))
  | some _ => none

/-- Is the value a table or an array? -/
def isNest : Value → Bool
  | .dict _ _ | .list _ _ => true
  | _ => false

/-- The name at the end of a path and the path before it. -/
def split? (p : Path) : Option (Path × String) := p.getLast?.map fun name => (p.dropLast, name)

/-- A result, or the document is malformed. -/
def orMalformed {α : Type} : Option α → Result α
  | some a => .ok a
  | none => .error .malformed

/-! ## History -/

/-- **`Tables`** — the contents read so far, the paths with a history, and the table that is open. -/
structure Tables where
  root : Entries
  opened : List Path
  frozen : List Path
  pending : List Path
  header : Path

namespace Tables

/-- Nothing read yet. -/
def empty : Tables := ⟨[], [], [], [], []⟩

/-- Was the table opened by a header or made by dotted keys of an earlier section? -/
def isOpened (t : Tables) (p : Path) : Bool := t.opened.contains p

/-- Does the path lie in something that was written as a value? -/
def isFrozen (t : Tables) (p : Path) : Bool := t.frozen.any fun q => q.leadsTo p

/-- A header ends a section: tables made by its dotted keys count as opened. -/
def endSection (t : Tables) : Tables := { t with opened := t.pending ++ t.opened, pending := [] }

/-- Forget the history of a path and of all beyond it. -/
def forget (t : Tables) (p : Path) : Tables :=
  { t with
    opened := t.opened.filter fun q => !p.leadsTo q
    frozen := t.frozen.filter fun q => !p.leadsTo q }

/-- Open a table by a header. -/
def openTable (t : Tables) (p : Path) : Result Tables := do
  if t.isOpened p || t.isFrozen p then throw .malformed
  let root ← orMalformed (alter true some p t.root)
  return { t with root := root, opened := p :: t.opened, header := p }

/-- Open one more table of an array by a header. -/
def openArrayTable (t : Tables) (p : Path) : Result Tables := do
  if t.isFrozen p then throw .malformed
  let (parent, name) ← orMalformed (split? p)
  let t := t.forget p
  let root ← orMalformed (alter true (appendTable name) parent t.root)
  return { t with root := root, opened := p :: t.opened, header := p }

/-- Put a value under a key of the open table. -/
def assign (t : Tables) (key : Path) (v : Value) : Result Tables := do
  let between := key.onTheWay.map (t.header ++ ·)
  if between.any t.isOpened then throw .malformed
  let (parent, name) ← orMalformed (split? key)
  let parent := t.header ++ parent
  if t.isFrozen parent then throw .malformed
  let root ← orMalformed (alter true (putNew name v) parent t.root)
  let frozen := if isNest v then (t.header ++ key) :: t.frozen else t.frozen
  return { t with root := root, frozen := frozen, pending := between ++ t.pending }

end Tables

/-- A table written as a value: its contents, and the keys whose values are tables or arrays. -/
structure InlineTable where
  entries : Entries
  frozen : List Path

namespace InlineTable

/-- Put a value under a key. -/
def assign (t : InlineTable) (key : Path) (v : Value) : Result InlineTable := do
  if t.frozen.any fun q => q.leadsTo key then throw .malformed
  let (parent, name) ← orMalformed (split? key)
  let entries ← orMalformed (alter false (putNew name v) parent t.entries)
  return ⟨entries, if isNest v then key :: t.frozen else t.frozen⟩

end InlineTable

end Toml

end Conformance
