import LuaAudit.Server.Basic
import LuaAudit.Server.Manual

/-!
# The help tool

Shows a page of the manual.

* `help` answers a call of the tool.
-/

namespace LuaAudit.Server

open Location (Path)

/-- Shows the page of a tool, as the manual has it. -/
def help (tool : String) : Tool String := do
  let s ← get
  if tool.toList.any (·.toNat = 0) then return "Error loading documentation: embedded null byte"
  let page := s.manual.join (.parse (Manual.fileName tool))
  match s.world.files.read page with
  | .ok bytes => match Text.Utf8.decode bytes with
    | .ok text => return String.ofList (Text.unifyNewlines text)
    | .error fault => return "Error loading documentation: " ++ fault.message
  | .error e => match e.fault with
    | .missing => return "Error: No documentation found for tool '" ++ tool ++ "'"
    | _ => return "Error loading documentation: " ++ e.message

end LuaAudit.Server
