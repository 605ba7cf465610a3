import LuaAudit.Files.Basic

/-!
# The manual

One page of documentation for each tool.

* `Manual.pages` are the pages by the name of their tool;
* `Manual.install` puts them into a directory.
-/

namespace LuaAudit.Server.Manual

open Location (Path)

/-- The page of the `lint` tool. -/
def lintPage : List String := [
  "# lint",
  "",
  "Scan FiveM Lua for runtime and style problems. Scans are purely textual:",
  "comments and string literals are blanked before any rule runs, so code",
  "inside them never produces diagnostics.",
  "",
  "## Actions",
  "",
  "### scan_text",
  "Scan Lua source passed inline.",
  "",
  "| Parameter | Required | Description |",
  "|-----------|----------|-------------|",
  "| `text` | yes | Lua source |",
  "| `uri` | no | Identity used to store the result (default `untitled:scratch.lua`) |",
  "",
  "### scan_file",
  "Scan one file. Requires `path`.",
  "",
  "### scan_workspace",
  "Scan every file under `path` (default: `LUA_LINT_WORKSPACE_ROOT` or the",
  "current directory) matching `pattern` (default `**/*.lua`). `node_modules`",
  "and `.git` are skipped. Unreadable files are listed under `failed`.",
  "",
  "### results",
  "Latest diagnostics per document. Pass `uri` for a single document.",
  "",
  "### close",
  "Forget a document's diagnostics. Requires `uri`.",
  "",
  "## Diagnostics",
  "",
  "| Code | Severity | Meaning |",
  "|------|----------|---------|",
  "| `loop-no-yield-while` | warning | `while ... do` body without `Wait` / `Citizen.Wait` |",
  "| `loop-no-yield-repeat` | warning | `repeat ... until` body without a yield |",
  "| `global-variable-leak` | information | File-scope assignment without `local` |",
  "| `deprecated-player-ped` | hint | `GetPlayerPed(-1)`; use `PlayerPedId()` |",
  "| `deprecated-cache-coords` | hint | `GetEntityCoords(PlayerPedId())`; " ++
    "cache the ped and coordinates |",
  "| `deprecated-cache-server-id` | hint | `GetPlayerServerId(PlayerId())`; cache the server ID |",
  "| `event-modern-register` | information | `RegisterServerEvent` " ++
    "without a handler on the next line |",
  "| `event-combine-handler` | hint | `RegisterNetEvent` " ++
    "followed by a matching `AddEventHandler` |",
  "| `event-style-spacing` | hint | `function(source,` without a space after the comma |",
  "| `legacy-citizen-create-thread` | information | `Citizen.CreateThread`; use `CreateThread` |",
  "| `legacy-citizen-wait` | information | `Citizen.Wait`; use `Wait` |",
  "| `local-function-before-declaration` | error | Local function called above its declaration |",
  "",
  "Each diagnostic has a 0-based `range` (`start`/`end` with `line` and",
  "`character`), `message`, `severity`, `code` and `source` (`lua-lint`).",
  "",
  "## Examples",
  "",
  "```",
  "lint(action=\"scan_text\", text=\"while true do\\n  print(1)\\nend\")",
  "lint(action=\"scan_workspace\", path=\"/srv/fivem/resources/[local]\")",
  "```",
  ""]

/-- The page of the `docs` tool. -/
def docsPage : List String := [
  "# docs",
  "",
  "Function signatures harvested from documentation sources. Results come",
  "from third-party files and are returned wrapped in untrusted-content",
  "markers.",
  "",
  "## Actions",
  "",
  "### lookup",
  "Signature for one function. Requires `name`. Sources listed in",
  "`LUA_LINT_DOCS_SOURCE_PRIORITY` are searched first, then the rest in the",
  "order they were added.",
  "",
  "### list",
  "Known function names with their source. Optional `source` filter and",
  "`limit` (default 50).",
  "",
  "### sources",
  "Cached sources with function counts and last update time, plus the",
  "configured source list.",
  "",
  "### refresh",
  "Re-download every enabled source (two at a time, 3 retries with",
  "exponential backoff, conditional requests via ETag / Last-Modified), then",
  "merge workspace `types.lua` files as `Local: <path>` sources and save the",
  "cache. A source that fails keeps its previous cache entry.",
  "",
  "### add_source",
  "Add a source for this session and download it. Requires `name` and `url`.",
  "",
  "| `kind` | Content |",
  "|--------|---------|",
  "| `annotated-definitions` (default) | Lua with `---@param` / `---@return` blocks |",
  "| `plain-functions` | Plain Lua; upgraded to `hybrid` when `---@` appears |",
  "| `hybrid` | Annotated Lua that also uses `exports('name', function ...)` |",
  "| `json-native-catalog` | JSON object keyed by native name |",
  "",
  "`url` may be an http(s) URL or a local path.",
  "",
  "### clear",
  "Delete the documentation cache. Requires `confirm=true`; without it",
  "nothing is deleted.",
  "",
  "## Examples",
  "",
  "```",
  "docs(action=\"add_source\", name=\"ox_lib\", " ++
    "url=\"https://raw.githubusercontent.com/overextended/ox_lib/master/types.lua\")",
  "docs(action=\"lookup\", name=\"lib.callback.await\")",
  "docs(action=\"clear\", confirm=true)",
  "```",
  ""]

/-- The page of the `config` tool. -/
def configPage : List String := [
  "# config",
  "",
  "Server configuration and management.",
  "",
  "## Actions",
  "",
  "### status",
  "Rule toggles, scanning settings, documentation cache location and counts.",
  "",
  "### set",
  "Update a runtime setting. Requires `key` and `value`. Changes apply to the",
  "next scan and are not persisted; use `LUA_LINT_*` environment variables",
  "for permanent configuration.",
  "",
  "Valid keys:",
  "- Rule toggles: `enable_while_loop_check`, `enable_repeat_loop_check`,",
  "  `enable_global_variable_check`, `enable_performance_check`,",
  "  `enable_net_event_check`, `enable_citizen_patterns`,",
  "  `enable_local_function_order_check`",
  "- Documentation: `enable_documentation_features`, `auto_load_local_types`,",
  "  `docs_max_concurrent_downloads`",
  "- Scanning: `scan_debounce_ms`, `workspace_root`",
  "- Server: `log_level`, `tool_timeout`",
  "",
  "## Examples",
  "",
  "```",
  "config(action=\"set\", key=\"enable_global_variable_check\", value=\"false\")",
  "config(action=\"set\", key=\"log_level\", value=\"DEBUG\")",
  "```",
  ""]

/-- The page of the `help` tool. -/
def helpPage : List String := [
  "# help",
  "",
  "Full documentation for a tool.",
  "",
  "`help(tool_name=\"lint\")`; valid names: `lint`, `docs`, `config`, `help`.",
  ""]

/-- The pages, by the name of their tool. -/
def pages : List (String × String) :=
  [("lint", lintPage), ("docs", docsPage), ("config", configPage), ("help", helpPage)].map fun p =>
    (p.1, Text.joinWith "\n" p.2)

/-- The name of the file with the page of a tool. -/
def fileName (tool : String) : String := tool ++ ".md"

/-- Puts one page into a directory. -/
def installPage (dir : Path) (fs : Files) (page : String × String) : Files :=
  (fs.write (dir.child (fileName page.1)) (Text.Utf8.encode page.2.toList)).toOption.getD fs

/-- Puts the pages into a directory, which is made if it is missing. -/
def install (dir : Path) (fs : Files) : Files :=
  pages.foldl (installPage dir) (fs.makeDirs dir).1

end LuaAudit.Server.Manual
