/-
# Conformance.Catalog — a named collection of descriptors, compared each with each.

The table has a row for every ordered pair.  Two views of it: the pairs that conform, and the pairs
that conform both ways.  The views also take tables made by hand, whose cells may be empty; a row is
left out of a view when the cells the view looks at are not all there.
-/
import Conformance.Check
import Conformance.Failure

namespace Conformance

/-- Named descriptors, each name once. -/
abbrev Catalog := List (String × Value)

/-- **`Row`** — one row of a table; each cell may be empty. -/
structure Row where
  source : Option String
  target : Option String
  sourceKind : Option String
  targetKind : Option String
  assignable : Option Bool
  deriving DecidableEq, Repr

namespace Row

/-- The names of the columns. -/
def columns : List String := ["source", "target", "source_kind", "target_kind", "assignable"]

/-- The pair of a row that conforms and whose two names differ. -/
def pair? (r : Row) : Option (String × String) :=
  match r.assignable, r.source, r.target with
  | some true, some s, some t => if s = t then none else some (s, t)
  | _, _, _ => none

end Row

namespace Catalog

/-- The names of the entries that are no descriptors. -/
def strangers (catalog : Catalog) : List String :=
  (catalog.filter fun e => e.2.kind?.isNone).map Prod.fst

/-- A catalog must have entries, and all of them must be descriptors. -/
def verify (catalog : Catalog) : Except Failure Unit :=
  if catalog.isEmpty then .error .emptyCatalog
  else if catalog.strangers.isEmpty then .ok ()
  else .error (.notDescriptors catalog.strangers)

/-- The row of a pair. -/
def row (p : Policy) (source target : String × Value) : Run Row := do
  let verdict ← p.conforms source.2 target.2
  return ⟨source.1, target.1, source.2.kind?.map Kind.name, target.2.kind?.map Kind.name, verdict⟩

/-- Every ordered pair, the first side changing slowest. -/
def pairs (catalog : Catalog) : List ((String × Value) × (String × Value)) :=
  catalog.flatMap fun s => catalog.map fun t => (s, t)

/-- **`tabulate`** — the table of a catalog. -/
def tabulate (p : Policy) (catalog : Catalog) : Run (List Row) := do
  let rows ← catalog.pairs.mapM fun e => row p e.1 e.2
  Logged.note [.tabulated rows.length catalog.length]
  return rows

end Catalog

namespace Table

/-- Names in order, the first of the pair counting first. -/
def pairLE (p q : String × String) : Bool :=
  p.1 < q.1 || (p.1 == q.1 && (p.2 < q.2 || p.2 == q.2))

/-- **`conforming`** — the ordered pairs of different names that conform, sorted. -/
def conforming (rows : List Row) : List (String × String) :=
  (rows.filterMap Row.pair?).mergeSort pairLE

/-- **`equivalent`** — the pairs that conform both ways, each named in order, sorted.  A pair appears
once for every combination of a forward and a backward row. -/
def equivalent (rows : List Row) : List (String × String) :=
  let forward := conforming rows
  let bothWays := forward.flatMap fun p => (forward.filter fun q => q.swap == p).map fun _ => p
  (bothWays.filter fun p => p.1 < p.2).mergeSort pairLE

end Table

end Conformance
