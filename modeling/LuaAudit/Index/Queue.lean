import LuaAudit.Index.Refresh

/-!
# Callers of a refresh

Several callers may ask for a refresh at once, but only one run is under way at any time.  Who asks
during a run gets the report of that run.  Who wants a source added waits for the run to end, and
then asks for a refresh of that source; so the first of them starts a run and the others share it.

* `RefreshQueue` holds the run under way and its callers, `refresh` and `add` take a caller;
* `work` lets time pass for the run, `wake` lets a caller go on whose run has ended;
* `advance` lets time pass, `finish` lets every caller be answered;
* `drop` forgets a caller, `close` the run and every caller.
-/

namespace LuaAudit.Index

open Docs (Source)

/-- A refresh under way. -/
abbrev Run := Job Site Outcome

/-- Someone who waits for the run to end: for its report, or for a chance to add a source. -/
structure Caller where
  id : Nat
  adds : Option Source := none

/-- The run under way, the callers that wait for it in the order of their calls, the callers whose
    run has ended and who have not gone on yet, with how it ended, and the answers. -/
structure RefreshQueue where
  run : Option Run := none
  waiting : List Caller := []
  woken : List (Caller × Outcome) := []
  answers : List (Nat × Outcome) := []

namespace RefreshQueue

/-- Takes a caller who wants a refresh: it starts a run or joins the one under way. -/
def refresh (d : RefreshQueue) (id : Nat) (sources : Option (List Source)) : RefreshQueue :=
  { d with
    run := d.run.or (some (Index.refresh sources))
    waiting := d.waiting ++ [{ id }] }

/-- Takes a caller who wants a source added: it starts a run or waits for the one under way. -/
def add (d : RefreshQueue) (id : Nat) (source : Source) : RefreshQueue :=
  match d.run with
  | none => d.refresh id (some [source])
  | some _ => { d with waiting := d.waiting ++ [{ id, adds := some source }] }

/-- Ends the run: the wait of its callers is over. -/
def endRun (d : RefreshQueue) (outcome : Outcome) : RefreshQueue :=
  { d with
    run := none
    waiting := []
    woken := d.woken ++ d.waiting.map fun c => (c, outcome) }

/-- Lets the first caller go on whose wait is over.  Who wants a source added asks for a refresh
    now, unless the run broke off; anyone else is answered. -/
def wake (d : RefreshQueue) : RefreshQueue :=
  match d.woken with
  | [] => d
  | (c, outcome) :: woken =>
    match outcome, c.adds with
    | .ok _, some source => { d with woken }.refresh c.id (some [source])
    | _, _ => { d with woken, answers := d.answers ++ [(c.id, outcome)] }

/-- Lets all callers go on whose wait is over, in the order of their calls. -/
def wakeAll (d : RefreshQueue) : RefreshQueue := d.woken.foldl (fun d _ => d.wake) d

/-- Lets time pass for the run under way, and ends it when it is done.  Gives the time that is left
    then. -/
def work (d : RefreshQueue) (ms : Nat) (site : Site) : RefreshQueue × Site × Nat :=
  match d.run with
  | none => (d, site, ms)
  | some job =>
    let (site, job, left) := job.advance ms site
    match job.value? with
    | some outcome => (d.endRun outcome, site, left)
    | none => ({ d with run := some job }, site, left)

/-- Lets time pass for the run under way and, when it ends, its callers go on. -/
def advanceRun (d : RefreshQueue) (ms : Nat) (site : Site) : RefreshQueue × Site × Nat :=
  let (d, site, left) := d.work ms site
  (d.wakeAll, site, left)

/-- Lets time pass.  The end of a run may start another, and none of the callers waits for a
    third. -/
def advance (d : RefreshQueue) (ms : Nat) (site : Site) : RefreshQueue × Site :=
  let (d, site, left) := d.advanceRun ms site
  let (d, site, _) := d.advanceRun left site
  (d, site)

/-- Runs what is under way to its end. -/
def finishRun (d : RefreshQueue) (site : Site) : RefreshQueue × Site :=
  match d.run with
  | none => (d, site)
  | some job =>
    let (site, outcome, _) := job.run site
    ((d.endRun outcome).wakeAll, site)

/-- Lets time pass until every caller is answered. -/
def finish (d : RefreshQueue) (site : Site) : RefreshQueue × Site :=
  let (d, site) := d.finishRun site
  d.finishRun site

/-- The answer to a caller. -/
def answer? (d : RefreshQueue) (id : Nat) : Option Outcome := d.answers.lookup id

/-- Forgets a caller; a run that it started goes on. -/
def drop (d : RefreshQueue) (id : Nat) : RefreshQueue :=
  { d with
    waiting := d.waiting.filter (·.id ≠ id)
    woken := d.woken.filter (·.1.id ≠ id)
    answers := d.answers.filter (·.1 ≠ id) }

/-- Gives up the run and every caller. -/
def close (_ : RefreshQueue) : RefreshQueue := {}

end RefreshQueue

end LuaAudit.Index
