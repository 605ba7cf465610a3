import LuaAudit.Number.Literal
import LuaAudit.Server.Lint
import LuaAudit.Text.Digit

/-!
# The config tool

Shows the settings, and changes some of them while the server runs.

* `ConfigCall` is a call of the tool;
* `config` answers it.
-/

namespace LuaAudit.Server

/-- A call of the config tool. -/
structure ConfigCall where
  action : String
  key : Option String := none
  value : Option String := none

/-- A setting that may be changed while the server runs. -/
inductive LiveKey where
  | flag (key : Flag)
  | count (key : Count)
  | logLevel
  | workspaceRoot

/-- The setting itself. -/
def LiveKey.key : LiveKey → Key
  | .flag k => .flag k
  | .count k => .count k
  | .logLevel => .label .logLevel
  | .workspaceRoot => .label .workspaceRoot

/-- The flags, ordered by name. -/
def flagKeys : List Flag :=
  [.localTypes, .legacyNames, .documentation, .leaks, .functionOrder, .events, .deprecatedCalls,
    .repeatLoops, .whileLoops]

/-- The settings that may be changed, ordered by name. -/
def liveKeys : List LiveKey :=
  [.flag .localTypes, .count .parallelDownloads] ++
    (flagKeys.drop 1).map .flag ++
    [.logLevel, .count .debounceMs, .count .toolTimeout, .workspaceRoot]

/-- The setting of a name. -/
def LiveKey.ofName? (name : String) : Option LiveKey := liveKeys.find? fun k => k.key.name = name

/-! ### Status -/

/-- Shows the settings and what is known. -/
def status : Tool String := do
  let state ← get
  let s := state.world.settings
  let root ← Tool.path state.world.workspaceRoot
  let cachePath ← Tool.path state.world.cachePath
  let documents := match state.scheduler with
    | some x => x.store.size
    | none => 0
  let cached := match state.catalogue with
    | some c => c.entries.size
    | none => 0
  return (Json.obj [
    ("passes", .obj (flagKeys.map fun k => ((Key.flag k).name, .bool (s.flag k)))),
    ("scanning", .obj [
      ("workspace_root", .str root.text),
      ("workspace_glob", .str (s.label .workspaceGlob)),
      ("debounce_ms", .int (s.count .debounceMs)),
      ("documents", .int documents)]),
    ("documentation", .obj [
      ("cache_path", .str cachePath.text),
      ("configured_sources", .int s.sources.length),
      ("enabled_sources", .int s.enabledSources.length),
      ("cached_sources", .int cached)]),
    ("settings", .obj [
      ("log_level", .str (s.label .logLevel)),
      ("tool_timeout", .int (s.count .toolTimeout))])]).render .report

/-! ### Changes -/

/-- A message on one line. -/
def complaint (message : String) : String := (Json.obj [("error", .str message)]).render .line

/-- Tells the new value of a setting. -/
def updated (key : Key) : Tool String := do
  let s ← Tool.settings
  return (Json.obj [("status", .str "updated"), ("key", .str key.name),
    ("value", s.value key)]).render .line

/-- Whether a text means yes. -/
def meansYes (value : String) : Bool :=
  ["true", "1", "yes"].contains (String.ofList (Text.toLower value.toList))

/-- The whole number that a text writes, blanks around it aside; one of too many digits is none. -/
def wholeNumber? (value : String) : Option Int :=
  if Number.maxDigits < value.toList.countP (Text.digitValue? · |>.isSome) then none
  else Number.integer? Text.digitValue? (Text.trim value.toList)

/-- Shows messages from a level on, and no longer as before.  A level that the log does not take
    leaves it with nothing to show. -/
def showFrom (level : String) : Tool Unit := do
  modify fun s => { s with sink := none }
  match (← get).packages.refusedLevel? level with
  | some message => throw (.level message)
  | none => modify fun s => { s with sink := some level }

/-- Gives a setting a value. -/
def change (key : LiveKey) (value : String) : Tool String :=
  match key with
  | .flag k => do
    Tool.changeSettings (·.setFlag k (meansYes value))
    updated key.key
  | .count k => match wholeNumber? value with
    | some n => do
      Tool.changeSettings (·.setCount k n)
      updated key.key
    | none => return complaint (key.key.name ++ " must be an integer")
  | .logLevel => do
    let level := String.ofList (Text.toUpper value.toList)
    Tool.changeSettings (·.setLabel .logLevel level)
    showFrom level
    updated key.key
  | .workspaceRoot => do
    Tool.changeSettings (·.setLabel .workspaceRoot value)
    updated key.key

/-- Gives the setting of a name a value. -/
def setByName (name value : Option String) : Tool String :=
  match given name, value with
  | some name, some value => match LiveKey.ofName? name with
    | some key => change key value
    | none => return (Json.obj [("error", .str ("Invalid key: " ++ name)),
        ("valid_keys", .arr (liveKeys.map fun k => .str k.key.name))]).render .line
  | _, _ => return complaint "key and value are required for set"

/-- Answers a call of the config tool. -/
def config (call : ConfigCall) : Tool String :=
  match call.action with
  | "status" => status
  | "set" => setByName call.key call.value
  | action => return unknownAction action ["status", "set"]

end LuaAudit.Server
