/-!
# Setting names

Every setting belongs to one of six families by the type of its value.

* `Flag`, `Count`, `Label`, `Roster` and `Delay` name the settings of a family;
* `Key` names any setting, `Key.all` lists them in their order of declaration.
-/

namespace LuaAudit

/-- A setting that is on or off. -/
inductive Flag where
  | whileLoops
  | repeatLoops
  | leaks
  | deprecatedCalls
  | events
  | legacyNames
  | functionOrder
  | documentation
  | localTypes
  deriving DecidableEq, Repr

/-- A setting that is a whole number. -/
inductive Count where
  | debounceMs
  | parallelDownloads
  | fetchRetries
  | maxSize
  | toolTimeout
  deriving DecidableEq, Repr

/-- A setting that is a text. -/
inductive Label where
  | workspaceGlob
  | workspaceRoot
  | localTypesGlob
  | userAgent
  | dataDir
  | logLevel
  deriving DecidableEq, Repr

/-- A setting that is a list of names. -/
inductive Roster where
  | globalExceptions
  | yieldFunctions
  | languageIds
  | sourcePriority
  deriving DecidableEq, Repr

/-- A setting that is a number of seconds. -/
inductive Delay where
  | fetchTimeout
  | retryBase
  deriving DecidableEq, Repr

/-- Any setting. -/
inductive Key where
  | flag (k : Flag)
  | count (k : Count)
  | label (k : Label)
  | roster (k : Roster)
  | delay (k : Delay)
  | sources
  deriving DecidableEq, Repr

namespace Key

/-- The name of a setting. -/
def name : Key → String
  | .flag .whileLoops => "enable_while_loop_check"
  | .flag .repeatLoops => "enable_repeat_loop_check"
  | .flag .leaks => "enable_global_variable_check"
  | .flag .deprecatedCalls => "enable_performance_check"
  | .flag .events => "enable_net_event_check"
  | .flag .legacyNames => "enable_citizen_patterns"
  | .flag .functionOrder => "enable_local_function_order_check"
  | .flag .documentation => "enable_documentation_features"
  | .flag .localTypes => "auto_load_local_types"
  | .count .debounceMs => "scan_debounce_ms"
  | .count .parallelDownloads => "docs_max_concurrent_downloads"
  | .count .fetchRetries => "docs_fetch_retries"
  | .count .maxSize => "docs_max_size"
  | .count .toolTimeout => "tool_timeout"
  | .label .workspaceGlob => "workspace_glob"
  | .label .workspaceRoot => "workspace_root"
  | .label .localTypesGlob => "local_types_glob"
  | .label .userAgent => "user_agent"
  | .label .dataDir => "data_dir"
  | .label .logLevel => "log_level"
  | .roster .globalExceptions => "global_exceptions"
  | .roster .yieldFunctions => "yield_functions"
  | .roster .languageIds => "lua_language_ids"
  | .roster .sourcePriority => "docs_source_priority"
  | .delay .fetchTimeout => "docs_fetch_timeout"
  | .delay .retryBase => "docs_retry_base_delay"
  | .sources => "documentation_sources"

/-- Every setting, in order of declaration. -/
def all : List Key := [
  .flag .whileLoops, .flag .repeatLoops, .flag .leaks, .flag .deprecatedCalls, .flag .events,
  .flag .legacyNames, .flag .functionOrder, .roster .globalExceptions, .roster .yieldFunctions,
  .roster .languageIds, .label .workspaceGlob, .count .debounceMs, .label .workspaceRoot,
  .flag .documentation, .sources, .roster .sourcePriority, .flag .localTypes,
  .label .localTypesGlob, .count .parallelDownloads, .delay .fetchTimeout, .count .fetchRetries,
  .delay .retryBase, .count .maxSize, .label .userAgent, .label .dataDir, .count .toolTimeout,
  .label .logLevel]

/-- The setting of a name. -/
def ofName? (s : String) : Option Key := all.find? fun k => k.name = s

/-- Settings that an environment variable gives as JSON. -/
def isList : Key → Bool
  | .roster _ | .sources => true
  | _ => false

end Key

end LuaAudit
