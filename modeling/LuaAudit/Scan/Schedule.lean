import LuaAudit.Lint.Passes
import LuaAudit.Scan.Loop

/-!
# Scheduling scans

A changed document is scanned once it has been left alone for a while.  Each document has at most
one timer; scheduling it again starts the timer anew, and the scan then sees the newest text.

* `Scheduler` holds the event loop, the handles of the timers, the documents that wait and the
  published reports;
* `schedule`, `scanNow`, `flush`, `close`, `dispose` and `advance` are the operations, and
  `trySchedule` is `schedule` where the wait may be too long;
* each operation also tells what it published, as `Event`s.
-/

namespace LuaAudit.Scan

open Lint (Diagnostic)

/-- A document at one moment; its text may not be available. -/
structure Document where
  uri : String
  text : Option String
  language : String := "lua"
  deriving DecidableEq, Repr

/-- What is made known to others. -/
inductive Event where
  | publish (uri : String) (found : List Diagnostic)
  | delete (uri : String)
  deriving DecidableEq, Repr

/-- The reports of each document, newest only. -/
abbrev Store := OrderedMap String (List Diagnostic)

/-- The event loop, the handle of each document's timer and the document that waits for it, both in
    the order in which the timers were started, and the reports. -/
structure Scheduler where
  loop : Loop := {}
  timers : OrderedMap String Nat := .empty
  pending : OrderedMap String Document := .empty
  store : Store := .empty

namespace Scheduler

/-- Whether a document is of a language that is linted. -/
def isLinted (s : Settings) (d : Document) : Bool := (s.roster .languageIds).contains d.language

/-- How long a document is left alone before it is scanned, in milliseconds. -/
def delay (s : Settings) : Nat := (s.count .debounceMs).toNat

/-- Whether that is too long to be counted in seconds of the 64-bit format. -/
def isOverlong (s : Settings) : Bool := Number.Binary64.ofRatio (delay s) 1000 = .infinite

/-- The wording about a wait that is too long. -/
def overlongWait : String := "integer division result too large for a float"

/-- Forgets the timer of a document and the document that waits for it. -/
def forget (x : Scheduler) (uri : String) : Scheduler :=
  { x with timers := x.timers.erase uri, pending := x.pending.erase uri }

/-- Stops the timer of a document. -/
def cancel (x : Scheduler) (uri : String) : Scheduler :=
  match x.timers.get? uri with
  | some handle => { x with loop := x.loop.cancel handle }.forget uri
  | none => x.forget uri

/-- Starts the timer of a document. -/
def start (x : Scheduler) (delay : Nat) (d : Document) : Scheduler :=
  let (loop, handle) := x.loop.callLater delay d.uri
  { x with
    loop
    timers := x.timers.insert d.uri handle
    pending := x.pending.insert d.uri d }

/-- Starts the timer of a document anew; a document of another language is passed over. -/
def schedule (s : Settings) (x : Scheduler) (d : Document) : Scheduler :=
  if isLinted s d then (x.cancel d.uri).start (delay s) d else x

/-- Starts the timer of a document anew, if the wait can be counted; else its timer is only stopped.
    Tells whether it could. -/
def trySchedule (s : Settings) (x : Scheduler) (d : Document) : Scheduler × Bool :=
  if isLinted s d && isOverlong s then (x.cancel d.uri, false) else (x.schedule s d, true)

/-- The reports of a document that can be linted and whose passes do not break off. -/
def found? (s : Settings) (d : Document) : Option (List Diagnostic) :=
  if isLinted s d then d.text.bind fun text => (Lint.lint s text).toOption else none

/-- Scans a document and publishes its reports; a document that cannot be linted has none and leaves
    everything as it is. -/
def scan (s : Settings) (x : Scheduler) (d : Document) : Scheduler × List Event :=
  match found? s d with
  | some found => ({ x with store := x.store.insert d.uri found }, [.publish d.uri found])
  | none => (x, [])

/-- Scans a document at once, in place of a timer. -/
def scanNow (s : Settings) (x : Scheduler) (d : Document) :
    Scheduler × List Event × List Diagnostic :=
  let (y, events) := scan s (x.cancel d.uri) d
  (y, events, (found? s d).getD [])

/-- Scans documents whose timers are stopped, one after the other. -/
def scanAll (s : Settings) (x : Scheduler) : List Document → Scheduler × List Event
  | [] => (x, [])
  | d :: ds =>
    let (y, events) := scan s (x.cancel d.uri) d
    let (z, more) := scanAll s y ds
    (z, events ++ more)

/-- Scans every waiting document now; gives the number of them. -/
def flush (s : Settings) (x : Scheduler) : Scheduler × List Event × Nat :=
  let waiting := x.pending.values
  let (y, events) := scanAll s x waiting
  (y, events, waiting.length)

/-- Stops the timer of a document and withdraws its reports. -/
def close (x : Scheduler) (uri : String) : Scheduler × List Event :=
  let y := x.cancel uri
  ({ y with store := y.store.erase uri }, [.delete uri])

/-- Stops every timer. -/
def dispose (x : Scheduler) : Scheduler := x.timers.keys.foldl cancel x

/-- The loop's call about a document: scans the one that waits, if any. -/
def fire (s : Settings) (x : Scheduler) (uri : String) : Scheduler × List Event :=
  match x.pending.get? uri with
  | some d => scan s (x.forget uri) d
  | none => (x.forget uri, [])

/-- Takes a call out of the loop and makes it. -/
def ring (s : Settings) (x : Scheduler) (a : Alarm) : Scheduler × List Event :=
  { x with loop := x.loop.take a }.fire s a.uri

@[simp] theorem scan_loop (s : Settings) (x : Scheduler) (d : Document) :
    (x.scan s d).1.loop = x.loop := by
  unfold scan
  split <;> rfl

theorem ring_loop (s : Settings) (x : Scheduler) (a : Alarm) :
    (x.ring s a).1.loop = x.loop.take a := by
  unfold ring fire
  split
  · exact scan_loop ..
  · rfl

/-- Makes every call that is due by a time, the earliest first. -/
def ringDue (s : Settings) (time : Nat) (x : Scheduler) : Scheduler × List Event :=
  match h : x.loop.next? time with
  | some a =>
    let more := ringDue s time (x.ring s a).1
    (more.1, (x.ring s a).2 ++ more.2)
  | none => (x, [])
  termination_by x.loop.alarms.length
  decreasing_by
    rw [ring_loop]
    exact Loop.length_take (Loop.mem_live.1 (Loop.mem_of_next? h).1).1

/-- Lets time pass: every timer that falls due is scanned. -/
def advance (s : Settings) (x : Scheduler) (ms : Nat) : Scheduler × List Event :=
  let time := x.loop.now + ms
  let (y, events) := ringDue s time x
  ({ y with loop := y.loop.waitUntil time }, events)

/-- Whether a document has a timer. -/
def isPending (x : Scheduler) (uri : String) : Bool := x.timers.contains uri

end Scheduler

end LuaAudit.Scan
