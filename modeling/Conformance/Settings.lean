/-
# Conformance.Settings — how comparisons are to be made, from files and variables.

Settings hold a depth limit and a trace flag.  They are read field by field: a variable beats a
settings file, and a file beats what is usual.  A depth limit that is no use is reported and left
out.  Settings themselves always have a limit that is a positive integer.
-/
import Conformance.Failure
import Conformance.Check
import Conformance.Toml.Document
import Conformance.Value.Convert
import Conformance.Workspace

namespace Conformance

/-- **`Settings`** — a depth limit and a trace flag, as they were given. -/
structure Settings where
  maxDepth : Value
  trace : Value
  positive : ∃ n, maxDepth.integer? = some n ∧ 1 ≤ n

namespace Settings

/-- Reading settings: records, and settings or the failure that prevents them. -/
abbrev Loading := Logged Failure

/-! ## Making settings -/

/-- Settings with the given fields; the limit must be a positive integer. -/
def make (maxDepth trace : Value) : Except Failure Settings :=
  match h : maxDepth.integer? with
  | none => .error (.showing maxDepth (.badDepth maxDepth))
  | some n =>
    if hn : 1 ≤ n then .ok ⟨maxDepth, trace, n, h, hn⟩
    else .error (.showing maxDepth (.badDepth maxDepth))

/-- The settings used unless others are given. -/
def standard : Settings where
  maxDepth := .int Policy.defaultDepth
  trace := .bool false
  positive := ⟨Policy.defaultDepth, rfl, by decide⟩

/-- Settings from named fields; what is not given is as usual. -/
def ofArguments (args : Arguments) : Except Failure Settings :=
  match args.find? fun arg => arg.1 != "max_depth" && arg.1 != "trace" with
  | some arg => .error (.unknownSetting arg.1)
  | none =>
    make ((args.lookup "max_depth").getD standard.maxDepth)
      ((args.lookup "trace").getD standard.trace)

/-- Settings with another trace flag. -/
def withTrace (s : Settings) (trace : Bool) : Settings := { s with trace := .bool trace }

/-- Are these settings the usual ones? -/
def isStandard (s : Settings) : Bool :=
  s.maxDepth.eq standard.maxDepth && s.trace.eq standard.trace

/-- The policy that settings amount to, with the stack that there is. -/
def policy (s : Settings) (stack : Stack) : Policy := ⟨.ofValue s.maxDepth, s.trace.truthy, stack⟩

/-! ## Loose fields -/

/-- The integer that a value amounts to, if any; an infinite number is refused. -/
def integerFrom (v : Value) : Except Failure (Option Int) :=
  match v.toInteger with
  | .ok n => .ok (some n)
  | .error (.broken .infinite) => .error (.broken .infinite)
  | .error _ => .ok none

/-- Report a limit that is no use, and leave the settings as they are. -/
def ignoreDepth (s : Settings) (v : Value) : Loading Settings := ⟨[.ignoredDepth v], .ok s⟩

/-- Settings with the limit that a value amounts to; one that is no use is reported. -/
def applyDepth (s : Settings) (v : Value) : Loading Settings := do
  match ← Logged.quiet (integerFrom v) with
  | none => s.ignoreDepth v
  | some n =>
    match make (.int n) s.trace with
    | .ok t => return t
    | .error _ => s.ignoreDepth v

/-- The texts that switch a flag on. -/
def affirmative : List String := ["1", "true", "t", "yes", "y", "on"]

/-- The flag that a value amounts to. -/
def flagFrom (v : Value) : Bool :=
  match v.text? with
  | some s =>
    affirmative.contains (String.ofList ((Text.strip Text.isBlank s.toList).map Char.toLower))
  | none => v.numeric?.isSome && v.truthy

/-- Settings with the fields that a mapping holds; a value that is no mapping holds none. -/
def apply (s : Settings) (mapping : Value) : Loading Settings := do
  match mapping with
  | .dict _ entries =>
    let s ← match Entries.find? entries (.text "max_depth") with
      | some v => s.applyDepth v
      | none => pure s
    match Entries.find? entries (.text "trace") with
    | some v => return s.withTrace (flagFrom v)
    | none => return s
  | _ => return s

/-! ## Variables -/

/-- The usual beginning of the names of variables. -/
def variableStem : String := "ASSIGNABLE_"

/-- A field from a variable, unless the variable is empty or not there. -/
def fieldOfVariable (w : Surroundings) (variableName field : String) : Entries :=
  match w.valueOf? variableName with
  | some s => if s.isEmpty then [] else [(.text field, .text s)]
  | none => []

/-- The fields that variables hold. -/
def fieldsOfVariables (w : Surroundings) (stem : String) : Entries :=
  fieldOfVariable w (stem ++ "MAX_DEPTH") "max_depth" ++ fieldOfVariable w (stem ++ "TRACE") "trace"

/-- **`fromVariables`** — settings changed by variables. -/
def fromVariables (w : Surroundings) (stem : String) (base : Settings) : Loading Settings :=
  base.apply (.dict .transient (fieldsOfVariables w stem))

/-! ## Files -/

/-- The name of a project file, which keeps settings for many tools. -/
def projectFile : String := "pyproject.toml"

/-- The name of a file for these settings alone. -/
def ownFile : String := "assignable.toml"

/-- The value under a name, or an empty mapping. -/
def memberOrEmpty (entries : Entries) (name : String) : Value :=
  (Toml.under? entries name).getD (.dict .transient [])

/-- The section of a project file. -/
def projectSection (data : Entries) : Except Failure Value :=
  match memberOrEmpty data "tool" with
  | .dict _ tool =>
    match memberOrEmpty tool "assignable" with
    | .dict _ own => .ok (memberOrEmpty own "check")
    | other => .error (.noAttribute other.subject "get")
  | _ => .ok .null

/-- The section of any other file: a table of its own, or else the whole file. -/
def ownSection (data : Entries) : Value :=
  match Toml.under? data "check" with
  | some (.dict id entries) => .dict id entries
  | _ => .dict .transient data

/-- A file that may hold settings: how messages show it, its name, and what is there. -/
structure Candidate where
  shown : String
  name : String
  entry : Entry

/-- What a file holds for these settings. -/
def sectionOf (name : String) (data : Entries) : Except Failure Value :=
  if name = projectFile then projectSection data else .ok (ownSection data)

/-- A file that is not read, with the reason. -/
def passOver (shown : String) (fault : ReadFault) : Loading (Option Entries) := do
  Logged.note [.unreadable shown fault]
  return none

/-- The contents of a document, unless they cannot be read.  That is reported and gives nothing; text
that is none, or an integer with too many digits, is refused. -/
def readContents (shown : String) (contents : Contents) : Loading (Option Entries) :=
  match contents with
  | .notText => Logged.quiet (.error .notText)
  | .text text =>
    match Toml.parse text with
    | .ok data => pure (some data)
    | .error .malformed => passOver shown .malformed
    | .error (.longInteger digits) => Logged.quiet (.error (.longInteger digits))

/-- What is there, read.  Where it may not be asked what is there, reading settings fails. -/
def readEntry (shown : String) : Entry → Loading (Option Entries)
  | .missing => pure none
  | .directory => passOver shown .isDirectory
  | .refused => passOver shown .refused
  | .hidden => Logged.quiet (.error (.denied shown))
  | .file contents => readContents shown contents

/-- The section of the first candidate whose section is not empty, or else the last one found. -/
def firstSection : Value → List Candidate → Loading Value
  | found, [] => pure found
  | found, c :: rest => do
    match ← readEntry c.shown c.entry with
    | none => firstSection found rest
    | some data =>
      let own ← Logged.quiet (sectionOf c.name data)
      if own.truthy then return own else firstSection own rest

/-- A file in the working directory. -/
def usualCandidate (w : Surroundings) (name : String) : Candidate :=
  ⟨"<cwd>/" ++ name, name, w.find name⟩

/-- A file at a path. -/
def candidateAt (w : Surroundings) (path : String) : Candidate :=
  ⟨Workspace.spell path, (Workspace.names path).getLastD "", w.find path⟩

/-- The files to look at. -/
def candidates (w : Surroundings) : Option String → List Candidate
  | some path => [candidateAt w path]
  | none => [usualCandidate w ownFile, usualCandidate w projectFile]

/-- **`fromFile`** — the usual settings changed by a file. -/
def fromFile (w : Surroundings) (path : Option String) : Loading Settings := do
  let own ← firstSection .null (candidates w path)
  standard.apply own

/-- **`load`** — the usual settings changed by a file and then by variables. -/
def load (w : Surroundings) (path : Option String) : Loading Settings := do
  fromVariables w variableStem (← fromFile w path)

end Settings

end Conformance
