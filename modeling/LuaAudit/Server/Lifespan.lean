import LuaAudit.Server.Basic

/-!
# Starting and stopping

* `start` makes the server ready and arms a refresh in the background;
* `stop` gives up what is under way and forgets everything but the settings;
* `advance` lets time pass.
-/

namespace LuaAudit.Server

/-- Makes the server ready: cached documentation is there at once, and a refresh is to follow when
    there is anything to refresh. -/
def start : Tool Unit := do
  let _ ← Tool.scheduler
  let s ← Tool.settings
  if s.flag .documentation then
    let _ ← Tool.catalogue
    if !s.enabledSources.isEmpty || s.flag .localTypes then
      modify fun server => { server with armed := true }

/-- Gives up what is under way and forgets everything but the settings. -/
def stop (s : Server) : Server :=
  { world := s.world, packages := s.packages, manual := s.manual, sink := s.sink }

/-- Lets time pass. -/
def advance (s : Server) (ms : Nat) : Server :=
  let s := s.passTime ms
  { s with scheduler := s.scheduler.map fun x => (x.advance s.world.settings ms).1 }

/-- A request to review a resource, for a reader who can call the tools. -/
def reviewPrompt (path : String) : String :=
  "Review the FiveM resource at " ++ path ++ " for runtime problems.\n\n" ++
  "1. Use the lint tool with action='scan_workspace', path='" ++ path ++ "'.\n" ++
  "2. For each diagnostic, read the surrounding code and explain the fix.\n" ++
  "3. Use the docs tool with action='lookup' to confirm native signatures before suggesting " ++
  "replacements."

end LuaAudit.Server
