import LuaAudit.Fetch.Attempt

/-!
# Retries

An attempt that broke on the way, came too late or met a failing server is made again, after a pause
that doubles each time.  Any other outcome stands.

* `Outcome.setback?` tells which outcomes are tried again;
* `pause` is how long to rest before that;
* `retry` makes attempts and rests in between, `persist` as often as the settings allow.
-/

namespace LuaAudit.Fetch

/-- The setback of an outcome that is tried again. -/
def Outcome.setback? : Outcome → Option Setback
  | .page p => if 500 ≤ p.status then some (.status p.status) else none
  | .transport message => some (.transport message)
  | .late limit => some (.late limit)
  | .failed _ => none

/-- What an outcome comes to when it is not tried again. -/
def Outcome.settle (source : String) (o : Outcome) : Except FetchError Page :=
  match o with
  | .page p => if 500 ≤ p.status then .error (.exhausted source (.status p.status)) else .ok p
  | .transport message => .error (.exhausted source (.transport message))
  | .late limit => .error (.exhausted source (.late limit))
  | .failed cause => .error cause

/-- The pause after an attempt, in seconds: the base delay, doubled for each attempt that came
    before. -/
def pause (s : Settings) (tried : Nat) : Rat :=
  ((s.delay .retryBase).value?.getD 0) * mkRat (Nat.pow 2 tried) 1

section Retry

variable (rest : Rat → Job World Unit) (source : String) (attempt : Job World Outcome)

/-- Makes an attempt, and up to `left` more; `tried` attempts came before.  Between two attempts it
    rests for a number of seconds. -/
def retry : (left tried : Nat) → Job World (Except FetchError Page)
  | 0, _ => do return (← attempt).settle source
  | left + 1, tried => Job.consult fun w => do
    let outcome ← attempt
    match outcome.setback? with
    | none => return outcome.settle source
    | some _ =>
      rest (pause w.settings tried)
      retry left (tried + 1)

/-- Makes attempts with the retries of the settings. -/
def persist : Job World (Except FetchError Page) :=
  Job.consult fun w => retry rest source attempt (w.settings.count .fetchRetries).toNat 0

end Retry

/-- Lets a number of seconds pass. -/
def sleep (seconds : Rat) : Job World Unit := Job.sleep (millisOf seconds)

/-- Fetches a page, with the retries of the settings. -/
def fetchPage (source url : String) (headers : List (String × Json)) :
    Job World (Except FetchError Page) :=
  persist sleep source (attempt source url headers)

end LuaAudit.Fetch
