/-!
# Jobs

A job is work on a shared state that takes time.  It changes the state in steps, waits between them,
and ends with a value.  A job that waits can be left for a while, so that others work on the state,
or left for good.

* `Job.run` runs a job to its end and tells how long it took;
* `Job.advance` lets some time pass, up to and including the last moment;
* `Job.within` gives up a job at a deadline;
* `Job.zoom` runs a job on a part of a larger state.
-/

namespace LuaAudit

/-- Work on a state `σ` that ends with a value of `α`.  A step looks at the state, changes it and
    goes on by what it saw; waits are in milliseconds. -/
inductive Job (σ α : Type) where
  | done (value : α)
  | step (update : σ → σ) (next : σ → Job σ α)
  | wait (ms : Nat) (next : Job σ α)

namespace Job

variable {σ τ α β : Type}

/-- One job after the other. -/
def bind : Job σ α → (α → Job σ β) → Job σ β
  | .done a, f => f a
  | .step update next, f => .step update fun s => (next s).bind f
  | .wait ms next, f => .wait ms (next.bind f)

instance : Monad (Job σ) where
  pure := .done
  bind := bind

/-- Looks at the state. -/
def ask (f : σ → α) : Job σ α := .step id fun s => .done (f s)

/-- Changes the state, with a value found on the way. -/
def act (f : σ → σ × α) : Job σ α := .step (fun s => (f s).1) fun s => .done (f s).2

/-- Changes the state. -/
def change (f : σ → σ) : Job σ Unit := .step f fun _ => .done ()

/-- Goes on by the state. -/
def consult (f : σ → Job σ α) : Job σ α := .step id f

/-- Waits; no time at all is no wait. -/
def sleep (ms : Nat) : Job σ Unit := if ms = 0 then .done () else .wait ms (.done ())

/-- Runs a job to its end: the state, the value and the time it took. -/
def run : Job σ α → σ → σ × α × Nat
  | .done a, s => (s, a, 0)
  | .step update next, s => (next s).run (update s)
  | .wait ms next, s =>
    let (s', a, spent) := next.run s
    (s', a, ms + spent)

/-- Lets time pass.  What falls due at the last moment still happens.  Gives the state, what is left
    of the job, and the time that was left when it ended. -/
def advance : Job σ α → Nat → σ → σ × Job σ α × Nat
  | .done a, time, s => (s, .done a, time)
  | .step update next, time, s => (next s).advance time (update s)
  | .wait ms next, time, s =>
    if ms ≤ time then next.advance (time - ms) s else (s, .wait (ms - time) next, 0)

/-- Gives up a job at a deadline; what falls due at the deadline is too late. -/
def within : Job σ α → Nat → Job σ (Option α)
  | .done a, _ => .done (some a)
  | .step update next, limit => .step update fun s => (next s).within limit
  | .wait ms next, limit =>
    if ms < limit then .wait ms (next.within (limit - ms))
    else (sleep limit).bind fun _ => .done none

/-- Gives up a job at a deadline, if there is one. -/
def withinLimit (job : Job σ α) : Option Nat → Job σ (Option α)
  | some limit => job.within limit
  | none => job.bind fun a => .done (some a)

/-- The value of a job that has ended. -/
def value? : Job σ α → Option α
  | .done a => some a
  | _ => none

/-- A job on a part of a larger state. -/
def zoom (get : τ → σ) (put : σ → τ → τ) : Job σ α → Job τ α
  | .done a => .done a
  | .step update next => .step (fun t => put (update (get t)) t) fun t =>
      (next (get t)).zoom get put
  | .wait ms next => .wait ms (next.zoom get put)

@[simp] theorem done_bind (a : α) (f : α → Job σ β) : (Job.done a).bind f = f a := rfl

/-- Running one job after the other: the state is handed on and the times add up. -/
theorem run_bind (j : Job σ α) (f : α → Job σ β) (s : σ) :
    (j.bind f).run s =
      let (s', a, spent) := j.run s
      let (s'', b, more) := (f a).run s'
      (s'', b, spent + more) := by
  induction j generalizing s with
  | done a => simp [bind, run]
  | step update next ih => exact ih s (update s)
  | wait ms next ih => simp [bind, run, ih, Nat.add_assoc]

end Job

end LuaAudit
