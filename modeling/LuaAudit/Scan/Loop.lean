/-!
# The event loop

Calls about documents that are made later.  A call is asked for with a delay and has a handle by
which it can be cancelled; the loop makes it when the clock reaches its deadline.

* `Alarm` is a call that was asked for, `Loop` the clock and the calls not made yet;
* `Loop.callLater` and `Loop.cancel` are what a program asks of the loop;
* `Loop.next?` and `Loop.take` are what the loop does as time passes.
-/

namespace LuaAudit.Scan

/-- A call about a document, to be made at its deadline unless it is cancelled before. -/
structure Alarm where
  handle : Nat
  uri : String
  deadline : Nat
  cancelled : Bool := false
  deriving DecidableEq, Repr

/-- The clock in milliseconds, the number of handles given out, and the calls not made yet in the
    order in which they were asked for.  A cancelled call stays there and is passed over. -/
structure Loop where
  now : Nat := 0
  handles : Nat := 0
  alarms : List Alarm := []
  deriving DecidableEq, Repr

namespace Loop

/-- Asks for a call after a delay; gives its handle. -/
def callLater (l : Loop) (delay : Nat) (uri : String) : Loop × Nat :=
  ({ l with
      handles := l.handles + 1
      alarms := l.alarms ++ [{ handle := l.handles, uri, deadline := l.now + delay }] },
    l.handles)

/-- Cancels the call with a handle; a handle whose call was made cancels nothing. -/
def cancel (l : Loop) (handle : Nat) : Loop :=
  { l with alarms := l.alarms.map fun a =>
      if a.handle = handle then { a with cancelled := true } else a }

/-- The calls that are still to be made. -/
def live (l : Loop) : List Alarm := l.alarms.filter fun a => !a.cancelled

/-- The earliest of some calls; of several, the one asked for first. -/
def earliest? : List Alarm → Option Alarm
  | [] => none
  | a :: as =>
    match earliest? as with
    | some b => if a.deadline ≤ b.deadline then some a else some b
    | none => some a

/-- The next call to make, if there is one due by a time. -/
def next? (l : Loop) (time : Nat) : Option Alarm :=
  earliest? (l.live.filter fun a => a.deadline ≤ time)

/-- Takes a call out in order to make it.  The clock then stands at its deadline, or past it if the
    call is late. -/
def take (l : Loop) (a : Alarm) : Loop :=
  { l with now := max l.now a.deadline, alarms := l.alarms.erase a }

/-- Lets the clock reach a time. -/
def waitUntil (l : Loop) (time : Nat) : Loop := { l with now := time }

theorem mem_of_earliest? {as : List Alarm} {a : Alarm} (h : earliest? as = some a) : a ∈ as := by
  induction as generalizing a with
  | nil => cases h
  | cons b as ih =>
    rw [earliest?] at h
    split at h
    next c hc =>
      split at h
      · exact Option.some.inj h ▸ List.mem_cons_self
      · exact List.mem_cons_of_mem b (ih (hc.trans h))
    · exact Option.some.inj h ▸ List.mem_cons_self

/-- The next call is one that is still to be made, and it is due. -/
theorem mem_of_next? {l : Loop} {time : Nat} {a : Alarm} (h : l.next? time = some a) :
    a ∈ l.live ∧ a.deadline ≤ time := by
  simpa using List.mem_filter.1 (mem_of_earliest? h)

theorem mem_live {l : Loop} {a : Alarm} : a ∈ l.live ↔ a ∈ l.alarms ∧ a.cancelled = false := by
  simp [live]

/-- Taking a call out leaves fewer. -/
theorem length_take {l : Loop} {a : Alarm} (h : a ∈ l.alarms) :
    (l.take a).alarms.length < l.alarms.length := by
  have hpos := List.length_pos_of_mem h
  rw [take, List.length_erase_of_mem h]
  omega

end Loop

end LuaAudit.Scan
