import LuaAudit.Docs.Source
import LuaAudit.Settings.Key

/-!
# Settings

The settings of the linter and its documentation index, as one table for each family of settings.

* `Settings.default` holds the defaults;
* `Settings.value` is the value of any setting as JSON;
* `setFlag`, `setCount`, … change one setting and leave the others.
-/

namespace LuaAudit

/-- A number of seconds, whole or not. -/
inductive Seconds where
  | whole (n : Int)
  | real (x : Number.Real)
  deriving DecidableEq, Repr

/-- A number of seconds as JSON. -/
def Seconds.toJson : Seconds → Json
  | .whole n => .int n
  | .real x => .real x

/-- A number of seconds in a message. -/
def Seconds.text : Seconds → String
  | .whole n => toString n
  | .real x => x.text

/-- The exact number of seconds, if it is finite. -/
def Seconds.value? : Seconds → Option Rat
  | .whole n => some (mkRat n 1)
  | .real x => x.toRat?

/-- Seconds in milliseconds, to the nearest; nothing below zero. -/
def millisOf (seconds : Rat) : Nat := Number.roundDiv (1000 * seconds.num.toNat) seconds.den

/-- A number of seconds in milliseconds; nothing below zero.  There is no number of milliseconds for
    ever. -/
def Seconds.millis? : Seconds → Option Nat
  | .real (.infinite true) => some 0
  | s => s.value?.map millisOf

/-- All settings. -/
structure Settings where
  flag : Flag → Bool
  count : Count → Int
  label : Label → String
  roster : Roster → List String
  delay : Delay → Seconds
  sources : List Docs.Source

namespace Settings

/-- The settings of a fresh installation. -/
def default : Settings where
  flag _ := true
  count
    | .debounceMs => 350
    | .parallelDownloads => 2
    | .fetchRetries => 3
    | .maxSize => 10485760
    | .toolTimeout => 120
  label
    | .workspaceGlob => "**/*.lua"
    | .workspaceRoot => ""
    | .localTypesGlob => "**/types.lua"
    | .userAgent => "lua-lint-mcp"
    | .dataDir => ""
    | .logLevel => "INFO"
  roster
    | .globalExceptions => ["Config", "exports", "RegisterNetEvent", "RegisterServerEvent",
        "AddEventHandler", "TriggerEvent", "TriggerServerEvent", "TriggerClientEvent"]
    | .yieldFunctions => ["Wait", "Citizen.Wait"]
    | .languageIds => ["lua"]
    | .sourcePriority => []
  delay
    | .fetchTimeout => .real (.finite false 3 1)
    | .retryBase => .real (.finite false 5 (-1))
  sources := []

/-- Changes one flag. -/
def setFlag (s : Settings) (k : Flag) (v : Bool) : Settings :=
  { s with flag := fun j => if j = k then v else s.flag j }

/-- Changes one whole number. -/
def setCount (s : Settings) (k : Count) (v : Int) : Settings :=
  { s with count := fun j => if j = k then v else s.count j }

/-- Changes one text. -/
def setLabel (s : Settings) (k : Label) (v : String) : Settings :=
  { s with label := fun j => if j = k then v else s.label j }

/-- Changes one list of names. -/
def setRoster (s : Settings) (k : Roster) (v : List String) : Settings :=
  { s with roster := fun j => if j = k then v else s.roster j }

/-- Changes one number of seconds. -/
def setDelay (s : Settings) (k : Delay) (v : Seconds) : Settings :=
  { s with delay := fun j => if j = k then v else s.delay j }

/-- Changes the documentation sources. -/
def setSources (s : Settings) (v : List Docs.Source) : Settings := { s with sources := v }

/-- The value of a setting. -/
def value (s : Settings) : Key → Json
  | .flag k => .bool (s.flag k)
  | .count k => .int (s.count k)
  | .label k => .str (s.label k)
  | .roster k => .arr ((s.roster k).map .str)
  | .delay k => (s.delay k).toJson
  | .sources => .arr (s.sources.map (·.toJson))

/-- The documentation sources that are in use. -/
def enabledSources (s : Settings) : List Docs.Source := s.sources.filter (·.enabled)

end Settings

end LuaAudit
