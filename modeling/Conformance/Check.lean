/-
# Conformance.Check — deciding whether every value of one type is a value of another.

`check` asks the rules in order and takes the first decision.  A rule may compare further pairs, one
level down; when the levels run out, the pair is reported and does not conform.

Two limits stand behind this.  The depth limit is the caller's; a pair that lies deeper costs one
record, and the comparison goes on elsewhere.  Beyond that, only so many calls can be held at once
(`Stack`); a comparison that needs more is given up as a whole.
-/
import Conformance.Number.Read
import Conformance.Rule.Decide
import Conformance.Stack

namespace Conformance

/-- A rule and what it decided. -/
structure Decision where
  rule : Rule
  verdict : Bool
  deriving DecidableEq, Repr

/-- **`firstDecision`** — ask rules in order until one decides; a list in which all defer decides
against the pair. -/
def firstDecision (ask : Rule → Run (Option Bool)) : List Rule → Run Decision
  | [] => pure ⟨.otherwise, false⟩
  | rule :: rest => do
    match ← ask rule with
    | some verdict => pure ⟨rule, verdict⟩
    | none => firstDecision ask rest

/-! ## Limits -/

/-- The levels that a limit lets a comparison look at. -/
inductive Reach where
  /-- No level. -/
  | nothing
  /-- The levels down to a deepest one. -/
  | downTo (deepest : Int)
  /-- All levels. -/
  | everything
  /-- No level can be compared with a limit of this sort: looking at one is a fault. -/
  | unordered (sortName : String)
  deriving DecidableEq, Repr

/-- **`Limit`** — how deep a comparison may go: the levels that are looked at, and the number that
records show, if it can be shown. -/
structure Limit where
  reach : Reach
  shown : Except Fault Int

namespace Limit

/-- A limit that is an integer. -/
def ofInt (n : Int) : Limit :=
  ⟨.downTo n, if Text.isWritableInteger n then .ok n else .error .unwritable⟩

/-- A limit that is a double.  No level is deeper than an infinite one, nor than what is not a number;
neither can be shown. -/
def ofDouble (x : Binary64) : Limit :=
  if x.isNaN then ⟨.everything, .error .notNumber⟩
  else if x.isFinite then ⟨.downTo x.floor, .ok x.truncate⟩
  else ⟨if x.negative then .nothing else .everything, .error .infinite⟩

/-- A limit that is no number. -/
def unordered (sortName : String) : Limit :=
  ⟨.unordered sortName, .error (.unorderedDepth sortName)⟩

/-- The limit that a value is. -/
def ofValue (v : Value) : Limit :=
  match v.integer?, v.double? with
  | some n, _ => ofInt n
  | none, some x => ofDouble x
  | none, none => unordered v.sortName

end Limit

/-- **`Policy`** — how to compare: a depth limit, whether every decision is reported, and the stack
that there is for it. -/
structure Policy where
  limit : Limit
  trace : Bool
  stack : Stack

/-! ## Comparisons -/

namespace Policy

/-- The depth limit used unless another is given. -/
def defaultDepth : Int := 128

/-- The policy used unless another is given. -/
def standard : Policy := ⟨.ofInt defaultDepth, false, .standard⟩

/-- The calls that it takes to decide a pair, the record of the decision included. -/
def callsFor (p : Policy) (a b : Value) : Nat :=
  if p.trace then max (p.stack.calls a b) p.stack.record else p.stack.calls a b

/-- The answer for a pair for which no level is left. -/
def exceeded (p : Policy) (room : Nat) (a b : Value) : Run Bool :=
  match p.limit.reach with
  | .unordered sortName => Logged.quiet (.error (.unorderedDepth sortName))
  | _ =>
    if room < p.stack.record then Logged.quiet (.error .stackExhausted)
    else do
      Logged.note [.depthExceeded p.limit.shown a.label b.label]
      pure false

/-- The record of a decision, if decisions are to be reported. -/
def report (p : Policy) (depth : Int) (a b : Value) (d : Decision) : List Record :=
  if p.trace then [.decided depth a.label b.label d.verdict d.rule] else []

/-- **`check`** — compare a pair at a depth with so many levels and so much room left. -/
def check (p : Policy) : Nat → Nat → Int → Value → Value → Run Bool
  | 0, room, _, a, b => p.exceeded room a b
  | levels + 1, room, depth, a, b =>
    if room < p.callsFor a b then Logged.quiet (.error .stackExhausted)
    else do
      let ask (rule : Rule) : Run (Option Bool) :=
        Rule.decide (p.check levels (room - rule.held) (depth + 1)) a b rule
      let d ← firstDecision ask Rule.all
      Logged.note (p.report depth a b d)
      pure d.verdict

/-- The levels that the depth limit allows from a depth on, that depth included.  Where it allows any
number, there are more than there is room for. -/
def levelsFrom (p : Policy) (depth : Int) : Nat :=
  match p.limit.reach with
  | .nothing | .unordered _ => 0
  | .downTo deepest => (deepest + 1 - depth).toNat
  | .everything => p.stack.whole

/-- The answer for a comparison that is given up. -/
def givenUp (p : Policy) (a b : Value) : Run Bool := do
  Logged.note [.stackExceeded p.limit.shown a.label b.label]
  pure false

/-- **`conforms`** — does every value of the first type belong to the second?  A comparison that is
given up because it needs too many calls is reported once, and the answer is no. -/
def conforms (p : Policy) (a b : Value) : Run Bool :=
  let run := p.check (p.levelsFrom 0) p.stack.whole 0 a b
  match run.outcome with
  | .error .stackExhausted => do
    Logged.note run.records
    p.givenUp a b
  | _ => run

/-- The values that a rule looks for in the target. -/
def lookedFor (a : Value) : Rule → List Value
  | .literalSource => a.literalValues.toOption.getD []
  | .enumSource => a.enumValues.toOption.getD []
  | _ => []

/-- A single rule asked about a pair at a depth. -/
def ask (p : Policy) (rule : Rule) (depth : Int) (a b : Value) : Run (Option Bool) :=
  if p.stack.whole < p.stack.looking b (lookedFor a rule) then
    Logged.quiet (.error .stackExhausted)
  else
    Rule.decide (p.check (p.levelsFrom (depth + 1)) (p.stack.whole - rule.held) (depth + 1))
      a b rule

end Policy

end Conformance
