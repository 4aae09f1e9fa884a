/-
# Conformance.Stamp — dates, times of day and points in time.

A configuration document may hold a date, a time of day, or both together with or without an offset
from universal time.  Nothing is computed with them; they are carried as values and written in
messages.
-/

namespace Conformance

/-- A calendar date. -/
structure Date where
  year : Nat
  month : Nat
  day : Nat
  deriving DecidableEq, Repr

/-- A time of day, to the microsecond. -/
structure TimeOfDay where
  hour : Nat
  minute : Nat
  second : Nat
  microsecond : Nat
  deriving DecidableEq, Repr

/-- **`Stamp`** — a date, a time, or both; the offset is in minutes, absent for local time. -/
inductive Stamp where
  | date (date : Date)
  | time (time : TimeOfDay)
  | dateTime (date : Date) (time : TimeOfDay) (offset : Option Int)
  deriving DecidableEq, Repr

namespace Stamp

/-- The short name of the sort of stamp. -/
def sortName : Stamp → String
  | .date _ => "date"
  | .time _ => "time"
  | .dateTime _ _ _ => "datetime"

/-- Year, month and day. -/
def dateFields (d : Date) : List String :=
  [toString d.year, toString d.month, toString d.day]

/-- Hour and minute, then the second unless it and the microsecond are zero, then the microsecond
unless it is zero. -/
def timeFields (t : TimeOfDay) : List String :=
  [toString t.hour, toString t.minute]
    ++ (if t.second = 0 && t.microsecond = 0 then [] else [toString t.second])
    ++ (if t.microsecond = 0 then [] else [toString t.microsecond])

/-- An offset as whole days, rounded down, and the seconds that remain; zero is universal time. -/
def offsetField (minutes : Int) : String :=
  if minutes = 0 then "tzinfo=datetime.timezone.utc"
  else
    let seconds := minutes * 60
    let days := Int.fdiv seconds 86400
    let rest := Int.fmod seconds 86400
    let parts := (if days = 0 then [] else ["days=" ++ toString days])
      ++ (if rest = 0 then [] else ["seconds=" ++ toString rest])
    "tzinfo=datetime.timezone(datetime.timedelta(" ++ ", ".intercalate parts ++ "))"

/-- **`spell`** — a stamp as messages show it. -/
def spell (s : Stamp) : String :=
  let fields := match s with
    | .date d => dateFields d
    | .time t => timeFields t
    | .dateTime d t offset => dateFields d ++ timeFields t ++ (offset.map offsetField).toList
  "datetime." ++ s.sortName ++ "(" ++ ", ".intercalate fields ++ ")"

end Stamp

end Conformance
