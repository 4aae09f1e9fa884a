/-
# Conformance.Toml.Scalar — numbers, dates and times.

Each reader takes as much as belongs to the number or stamp that stands first and leaves the rest; it
is for the caller to see that nothing unfit follows.
-/
import Conformance.Number.Binary64
import Conformance.Toml.Basic

namespace Conformance

namespace Toml

/-! ## Numbers -/

/-- Further digits; single underscores may stand before each. -/
def moreDigits (digit? : Char → Option Nat) : List Char → List Nat × List Char
  | [] => ([], [])
  | '_' :: c :: rest =>
    match digit? c with
    | some d =>
      let more := moreDigits digit? rest
      (d :: more.1, more.2)
    | none => ([], '_' :: c :: rest)
  | c :: rest =>
    match digit? c with
    | some d =>
      let more := moreDigits digit? rest
      (d :: more.1, more.2)
    | none => ([], c :: rest)

/-- One digit or more. -/
def digits? (digit? : Char → Option Nat) : List Char → Option (List Nat × List Char)
  | [] => none
  | c :: rest =>
    (digit? c).map fun d =>
      let more := moreDigits digit? rest
      (d :: more.1, more.2)

/-- The value of a digit below a base. -/
def digitBelow? (base : Nat) (c : Char) : Option Nat := (hexDigit? c).filter (· < base)

/-- An integer in base sixteen, eight or two, after its leading zero. -/
def basedNumber? : List Char → Option (Nat × List Char)
  | 'x' :: rest => (digits? (digitBelow? 16) rest).map fun r => (ofDigits 16 r.1, r.2)
  | 'o' :: rest => (digits? (digitBelow? 8) rest).map fun r => (ofDigits 8 r.1, r.2)
  | 'b' :: rest => (digits? (digitBelow? 2) rest).map fun r => (ofDigits 2 r.1, r.2)
  | _ => none

/-- An optional sign. -/
def sign : List Char → Bool × List Char
  | '-' :: rest => (true, rest)
  | '+' :: rest => (false, rest)
  | cs => (false, cs)

/-- The whole part of a decimal number: a single zero, or digits of which the first is none. -/
def wholePart? : List Char → Option (List Nat × List Char)
  | '0' :: rest => some ([0], rest)
  | cs => digits? Text.asciiDigit? cs

/-- The digits after a point, if there are any. -/
def fraction? : List Char → Option (List Nat × List Char)
  | '.' :: rest => digits? Text.asciiDigit? rest
  | _ => none

/-- An exponent, if there is one. -/
def exponent? : List Char → Option (Int × List Char)
  | c :: rest =>
    if c = 'e' || c = 'E' then
      let (negative, rest) := sign rest
      (digits? Text.asciiDigit? rest).map fun r =>
        (if negative then -(ofDigits 10 r.1 : Int) else ofDigits 10 r.1, r.2)
    else none
  | [] => none

/-- An integer with so many digits, unless they are too many. -/
def integerOf (negative : Bool) (digits : List Nat) : Result Value :=
  if Text.maxIntegerDigits < digits.length then .error (.longInteger digits.length)
  else .ok (.int (if negative then -(ofDigits 10 digits : Int) else ofDigits 10 digits))

/-- A decimal number.  It is an integer unless it has a fraction or an exponent. -/
def decimal? (cs : List Char) : Option (Result (Value × List Char)) := do
  let (negative, rest) := sign cs
  let (whole, rest) ← wholePart? rest
  let fraction := fraction? rest
  let rest := (fraction.map Prod.snd).getD rest
  let exponent := exponent? rest
  let rest := (exponent.map Prod.snd).getD rest
  if fraction.isNone && exponent.isNone then
    return (integerOf negative whole).map fun v => (v, rest)
  else
    let decimals := (fraction.map Prod.fst).getD []
    let power := (exponent.map Prod.fst).getD 0 - decimals.length
    let x := Binary64.ofDecimal negative (ofDigits 10 (whole ++ decimals)) power
    return .ok (.float .transient x, rest)

/-- A number, if one stands first. -/
def number? (cs : List Char) : Option (Result (Value × List Char)) :=
  let based := match cs with
    | '0' :: rest => basedNumber? rest
    | _ => none
  match based with
  | some (n, rest) => some (.ok (.int n, rest))
  | none => decimal? cs

/-- The numbers that are written as words. -/
def special? (cs : List Char) : Option (Value × List Char) :=
  let (negative, rest) := sign cs
  match rest with
  | 'i' :: 'n' :: 'f' :: rest => some (.float .transient (.infinity negative), rest)
  | 'n' :: 'a' :: 'n' :: rest => some (.float .transient .nan, rest)
  | _ => none

/-! ## Dates and times -/

/-- The number with exactly so many digits, if they stand first. -/
def fixedDigits? : Nat → List Char → Option (Nat × List Char)
  | 0, cs => some (0, cs)
  | _ + 1, [] => none
  | n + 1, c :: rest => do
    let d ← Text.asciiDigit? c
    let (value, rest) ← fixedDigits? n rest
    return (d * Nat.pow 10 n + value, rest)

/-- A two-digit number in a range. -/
def twoDigits? (least most : Nat) (cs : List Char) : Option (Nat × List Char) := do
  let (n, rest) ← fixedDigits? 2 cs
  if least ≤ n && n ≤ most then some (n, rest) else none

/-- The given character. -/
def char? (c : Char) : List Char → Option (List Char)
  | d :: rest => if d = c then some rest else none
  | [] => none

/-- Microseconds: the first six digits after a point, further ones being left out. -/
def microseconds (cs : List Char) : Nat × List Char :=
  match cs with
  | '.' :: rest =>
    let digits := (rest.takeWhile fun c => (Text.asciiDigit? c).isSome).filterMap Text.asciiDigit?
    if digits.isEmpty then (0, cs)
    else
      let six := (digits ++ List.replicate 6 0).take 6
      (ofDigits 10 six, rest.dropWhile fun c => (Text.asciiDigit? c).isSome)
  | _ => (0, cs)

/-- A time of day. -/
def timeOfDay? (cs : List Char) : Option (TimeOfDay × List Char) := do
  let (hour, rest) ← twoDigits? 0 23 cs
  let (minute, rest) ← twoDigits? 0 59 (← char? ':' rest)
  let (second, rest) ← twoDigits? 0 59 (← char? ':' rest)
  let (microsecond, rest) := microseconds rest
  return (⟨hour, minute, second, microsecond⟩, rest)

/-- An offset from universal time, in minutes. -/
def offset? : List Char → Option (Int × List Char)
  | [] => none
  | c :: rest =>
    if c = 'Z' || c = 'z' then some (0, rest)
    else if c = '+' || c = '-' then do
      let (hour, rest) ← twoDigits? 0 23 rest
      let (minute, rest) ← twoDigits? 0 59 (← char? ':' rest)
      let minutes : Int := hour * 60 + minute
      return (if c = '-' then -minutes else minutes, rest)
    else none

/-- A date as it is written, whether or not it is in the calendar. -/
def date? (cs : List Char) : Option (Date × List Char) := do
  let (year, rest) ← fixedDigits? 4 cs
  let (month, rest) ← twoDigits? 1 12 (← char? '-' rest)
  let (day, rest) ← twoDigits? 1 31 (← char? '-' rest)
  return (⟨year, month, day⟩, rest)

/-- A leap year has a 29 February. -/
def isLeap (year : Nat) : Bool := (year % 4 == 0 && year % 100 != 0) || year % 400 == 0

/-- The days of a month. -/
def daysInMonth (year month : Nat) : Nat :=
  if month = 2 then (if isLeap year then 29 else 28)
  else if month ∈ [4, 6, 9, 11] then 30
  else 31

/-- Is the date in the calendar, whose first year is 1? -/
def inCalendar (d : Date) : Bool := 1 ≤ d.year && d.day ≤ daysInMonth d.year d.month

/-- The time that may follow a date, with its offset if it has one. -/
def timeAfterDate? : List Char → Option ((TimeOfDay × Option Int) × List Char)
  | c :: rest =>
    if c = 'T' || c = 't' || c = ' ' then do
      let (time, rest) ← timeOfDay? rest
      match offset? rest with
      | some (offset, rest) => return ((time, some offset), rest)
      | none => return ((time, none), rest)
    else none
  | [] => none

/-- A date, with a time if one follows; a time by itself. -/
def stamp? (cs : List Char) : Option (Result (Value × List Char)) :=
  match date? cs with
  | some (date, rest) =>
    if inCalendar date then
      match timeAfterDate? rest with
      | some ((time, offset), rest) => some (.ok (.stamp (.dateTime date time offset), rest))
      | none => some (.ok (.stamp (.date date), rest))
    else some (.error .malformed)
  | none => (timeOfDay? cs).map fun r => .ok (.stamp (.time r.1), r.2)

end Toml

end Conformance
