import LuaAudit.Server.Basic

/-!
# Tools that take time

A tool that waits for a refresh is given up at the deadline of the settings.  The refresh itself
goes on, and a later call may join it.

* `timeoutMessage` is the answer of a tool that was given up;
* `awaitOutcome` waits for the outcome of a refresh.
-/

namespace LuaAudit.Server

open Index (Outcome)

/-- The answer of a tool that was given up. -/
def timeoutMessage (action : String) (seconds : Int) : String :=
  "Error: '" ++ action ++ "' timed out after " ++ toString seconds ++
    "s. Increase TOOL_TIMEOUT or narrow the request."

/-- What a refresh came to. -/
def Tool.outcome (o : Outcome) : Tool Index.Report :=
  match o with
  | .ok report => return report
  | .error (.home e) => throw (.home e)
  | .error (.pattern e) => throw (.pattern e)
  | .error (.encoding e) => throw (.encoding e)

/-- Takes the answer to the tool, if there is one. -/
def takeAnswer : Tool (Option Outcome) := do
  let answer := (← get).queue.answer? toolCaller
  modify fun s => { s with queue := s.queue.drop toolCaller }
  return answer

/-- Waits for the answer to a call; without a deadline for as long as it takes, and else only for an
    answer before it. -/
def awaitOutcome (call : Tool Unit) : Tool (Option Outcome) := do
  let limit := (← Tool.settings).count .toolTimeout
  if limit ≤ 0 then
    call
    modify fun s => s.beginBackground.onQueue fun d site => d.finish site
    takeAnswer
  else
    modify beginBackground
    call
    modify fun s => s.passTime (1000 * limit.toNat - 1)
    match ← takeAnswer with
    | some answer => return some answer
    | none =>
      modify fun s => s.passTime 1
      return none

/-- Waits for a report and goes on with it, or tells that it came too late. -/
def awaitReport (action : String) (call : Tool Unit) (use : Index.Report → Tool String) :
    Tool String := do
  let limit := (← Tool.settings).count .toolTimeout
  match ← awaitOutcome call with
  | some outcome => use (← Tool.outcome outcome)
  | none => return timeoutMessage action limit

end LuaAudit.Server
