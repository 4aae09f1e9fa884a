/-
# Conformance.Record — what is reported beside an answer.

A record says what happened; its level, its channel and its wording follow from that.  What a record
shows may be impossible to write: it is made all the same, and only its wording is missing.
-/
import Conformance.Descriptor.Inspect
import Conformance.Rule
import Conformance.Value.Spelling

namespace Conformance

/-- Why a settings file could not be read. -/
inductive ReadFault where
  | malformed
  | isDirectory
  | refused
  deriving DecidableEq, Repr

namespace ReadFault

/-- The name under which a failure to read is reported. -/
def name : ReadFault → String
  | .malformed => "TOMLDecodeError"
  | .isDirectory => "IsADirectoryError"
  | .refused => "PermissionError"

end ReadFault

/-- **`Record`** — an event worth reporting. -/
inductive Record where
  /-- A pair was decided, at a depth, by a rule. -/
  | decided (depth : Int) (source target : String) (verdict : Bool) (rule : Rule)
  /-- A pair lay deeper than the limit, which can be shown or not. -/
  | depthExceeded (limit : Except Fault Int) (source target : String)
  /-- A comparison needed more calls than can be held at once. -/
  | stackExceeded (limit : Except Fault Int) (source target : String)
  /-- A settings value for the depth limit was no use. -/
  | ignoredDepth (value : Value)
  /-- A settings file could not be read. -/
  | unreadable (path : String) (fault : ReadFault)
  /-- A catalog was tabulated. -/
  | tabulated (pairs descriptors : Nat)

namespace Record

/-- How much a record matters. -/
inductive Level where
  | debug | warning
  deriving DecidableEq, Repr

/-- The word for a level. -/
def Level.name : Level → String
  | .debug => "DEBUG"
  | .warning => "WARNING"

/-- The level of a record. -/
def level : Record → Level
  | .decided .. | .tabulated .. => .debug
  | _ => .warning

/-- The channel a record is sent to. -/
def channel : Record → String
  | .decided .. | .depthExceeded .. | .stackExceeded .. => "assignable.core.engine"
  | .ignoredDepth .. | .unreadable .. => "assignable.io.config"
  | .tabulated .. => "assignable.io.matrix"

/-- Two spaces for each level of depth. -/
def indent : Nat → String
  | 0 => ""
  | depth + 1 => "  " ++ indent depth

/-- The wording of a record, if what it shows can be written. -/
def message : Record → Except Fault String
  | .decided depth source target verdict rule =>
    .ok (indent depth.toNat ++ source ++ " -> " ++ target ++ ": " ++ (Value.bool verdict).spell ++
      " [" ++ rule.name ++ "]")
  | .depthExceeded limit source target => do
    return "assignability depth limit " ++ toString (← limit) ++ " exceeded at " ++ source ++
      " -> " ++ target ++ "; reporting not assignable"
  | .stackExceeded limit source target => do
    return "assignability depth limit " ++ toString (← limit) ++
      " exceeded the interpreter recursion limit at " ++ source ++ " -> " ++ target ++
      "; reporting not assignable"
  | .ignoredDepth value =>
    if value.isWritable then .ok ("ignoring invalid max_depth " ++ value.spell)
    else .error .unwritable
  | .unreadable path fault => .ok ("could not read " ++ path ++ ": <" ++ fault.name ++ ">")
  | .tabulated pairs descriptors =>
    .ok ("tabulated " ++ toString pairs ++ " pairs over " ++ toString descriptors ++ " descriptors")

/-- A record as one line; a wording that cannot be written is left out. -/
def line (r : Record) : String :=
  r.level.name ++ " " ++ r.channel ++ ": " ++ r.message.toOption.getD ""

end Record

end Conformance
