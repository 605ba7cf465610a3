import LuaAudit.Location.Path
import LuaAudit.Settings.Basic

/-!
# Paths of the settings

Where data is kept and which directory is the workspace.
-/

namespace LuaAudit.Settings

open Location (HomeError Homes Path)

/-- The directory for data: as set, or below the home directory. -/
def dataDir (s : Settings) (homes : Homes) : Except HomeError Path :=
  if s.label .dataDir = "" then .ok (homes.own.child ".lua-lint-mcp")
  else (Path.parse (s.label .dataDir)).expandUser homes

/-- The directory of the documentation cache. -/
def cacheDir (s : Settings) (homes : Homes) : Except HomeError Path :=
  (s.dataDir homes).map (·.child "documentation")

/-- The file of the documentation cache. -/
def cachePath (s : Settings) (homes : Homes) : Except HomeError Path :=
  (s.cacheDir homes).map (·.child "documentation.json")

/-- The workspace: as set, or the current directory. -/
def workspaceRoot (s : Settings) (homes : Homes) (cwd : Path) : Except HomeError Path :=
  if s.label .workspaceRoot = "" then .ok cwd
  else (Path.parse (s.label .workspaceRoot)).expandUser homes

end LuaAudit.Settings
