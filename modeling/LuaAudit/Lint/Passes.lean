import LuaAudit.Lint.Rule.Event
import LuaAudit.Lint.Rule.Leak
import LuaAudit.Lint.Rule.Loop
import LuaAudit.Lint.Rule.Order
import LuaAudit.Lint.Rule.Phrase
import LuaAudit.Settings.Basic

/-!
# Passes

A pass is a named check that one setting switches on.  The passes run in a fixed order, and their
reports follow each other.

* `passes` lists them;
* `runPasses` runs those that are switched on.
-/

namespace LuaAudit.Lint

/-- A named check and its switch.  A check that looks up a place the script does not have breaks
    off. -/
structure Pass where
  name : String
  toggle : Flag
  check : Settings → Script → Except PlaceError (List Diagnostic)

/-- A pass that looks up no place. -/
def Pass.reading (name : String) (toggle : Flag) (check : Settings → Script → List Diagnostic) :
    Pass :=
  ⟨name, toggle, fun s script => .ok (check s script)⟩

/-- All passes, in their order. -/
def passes : List Pass := [
  .reading "while-loop" .whileLoops fun s =>
    LoopRule.while.check ((s.roster .yieldFunctions).map String.toList),
  .reading "repeat-loop" .repeatLoops fun s =>
    LoopRule.repeat.check ((s.roster .yieldFunctions).map String.toList),
  .reading "global-variable" .leaks fun s =>
    checkLeaks ((s.roster .globalExceptions).map String.toList),
  .reading "deprecated-api" .deprecatedCalls fun _ => checkPhrases deprecatedCalls,
  ⟨"net-event", .events, fun _ => checkEvents⟩,
  .reading "legacy-api" .legacyNames fun _ => checkPhrases legacyNames,
  .reading "function-order" .functionOrder fun _ => checkOrder]

/-- The passes that are switched on. -/
def enabledPasses (s : Settings) : List Pass := passes.filter fun p => s.flag p.toggle

/-- The reports of the passes that are switched on; a pass that breaks off ends the run. -/
def runPasses (s : Settings) (script : Script) : Except PlaceError (List Diagnostic) := do
  let found ← (enabledPasses s).mapM fun p => p.check s script
  return found.flatten

/-- The reports on a text. -/
def lint (s : Settings) (text : String) : Except PlaceError (List Diagnostic) :=
  runPasses s (Script.ofText text.toList)

end LuaAudit.Lint
