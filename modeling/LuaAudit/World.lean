import LuaAudit.Fetch.Http
import LuaAudit.Files.Basic
import LuaAudit.Json.Reader
import LuaAudit.Settings.Paths

/-!
# The world

Everything outside the program's own memory that an answer can depend on, with the settings in
force.
-/

namespace LuaAudit

open Location (HomeError Homes Path)

/-- The settings, the files, the home directories, the network, the wall clock in whole seconds
    since the start of the year 1, and how deep JSON may be nested. -/
structure World where
  settings : Settings
  files : Files
  homes : Homes
  network : Fetch.Network
  clock : Nat
  nesting : Json.Depth := .usual

namespace World

/-- Reads the wall clock; a second passes from one reading to the next. -/
def readClock (w : World) : World × Nat := ({ w with clock := w.clock + 1 }, w.clock)

/-- The directory of the workspace. -/
def workspaceRoot (w : World) : Except HomeError Path :=
  w.settings.workspaceRoot w.homes w.files.cwdPath

/-- The file of the documentation cache. -/
def cachePath (w : World) : Except HomeError Path := w.settings.cachePath w.homes

end World

end LuaAudit
