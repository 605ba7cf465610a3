import LuaAudit.Command
import LuaAudit.Settings.Load

/-!
# The command line

Reads the files that a command may look at, runs the command, prints its output and writes the files
back that it changed.  The network is out of reach, so only sources that are files can be refreshed.
-/

namespace LuaAudit.Main

open Location (Homes Path)

/-- A place as a path of the file system. -/
def placeText (place : Place) : String := "/" ++ Text.joinWith "/" place

/-- Adds a file; one that cannot be read is refused later. -/
def addFile (fs : Files) (place : Place) : IO Files := do
  try
    let bytes ← IO.FS.readBinFile (placeText place)
    return { fs with nodes := fs.nodes.insert place (.file bytes.toList) }
  catch _ =>
    return { fs with nodes := fs.nodes.insert place (.file []), denied := place :: fs.denied }

/-- Adds what stands at a place and everything below it. -/
partial def addTree (fs : Files) (place : Place) : IO Files := do
  let path := (← IO.currentDir) / placeText place
  if !(← path.pathExists) then return fs
  if !(← path.isDir) then addFile fs place
  else
    let mut fs := { fs with nodes := fs.nodes.insert place .directory }
    for entry in ← path.readDir do
      fs ← addTree fs (place ++ [entry.fileName])
    return fs

/-- Adds the directories on the way to a place, and what stands there. -/
def addPlace (fs : Files) (p : Path) : IO Files := do
  let place := (fs.resolve p).parts
  let way := (List.range place.length).map fun n => place.take n
  let present ← ((← IO.currentDir) / placeText place).pathExists
  let nodes := if present then way.foldl (fun m k => m.insert k .directory) fs.nodes else fs.nodes
  addTree { fs with nodes } place

/-- Writes back what a command changed. -/
def writeBack (old new : Files) : IO Unit := do
  for (place, node) in new.nodes.entries do
    if old.nodes.get? place != some node then
      match node with
      | .directory => IO.FS.createDirAll (placeText place)
      | .file bytes => IO.FS.writeBinFile (placeText place) ⟨bytes.toArray⟩
  for (place, node) in old.nodes.entries.mergeSort fun a b => b.1.length ≤ a.1.length do
    if !new.nodes.contains place then
      match node with
      | .directory => IO.FS.removeDir (placeText place)
      | .file _ => IO.FS.removeFile (placeText place)

/-- The seconds from the start of the year 1 to now, read off a fresh file. -/
def now : IO Nat := do
  let (_, path) ← IO.FS.createTempFile
  let seconds := (← path.metadata).modified.sec
  IO.FS.removeFile path
  return (seconds + 62135596800).toNat

/-- The environment variables that are settings. -/
def environment : IO (List (String × String)) := do
  let names := Key.all.map fun k => "LUA_LINT_" ++ String.ofList (k.name.toList.map Char.toUpper)
  let given ← names.mapM fun name => return (name, ← IO.getEnv name)
  return given.filterMap fun (name, value) => value.map fun v => (name, v)

/-- The world that a command works on: the current directory, the given paths, the workspace and the
    documentation. -/
def world (settings : Settings) (paths : List String) : IO World := do
  let home := Path.parse ((← IO.getEnv "HOME").getD "/")
  let cwd := Path.parse (← IO.currentDir).toString
  let homes : Homes := { own := home }
  let start : Files := { cwd := cwd.parts }
  let known := [settings.dataDir homes, settings.workspaceRoot homes cwd].filterMap (·.toOption)
  let given := paths.filterMap fun p => ((Path.parse p).expandUser homes).toOption
  let files ← (known ++ given).foldlM addPlace start
  let network : Fetch.Network := {
    ask := fun _ => .done (.error (.transport "network is out of reach"))
    decode := fun _ bytes => .ok (String.ofList (Text.Utf8.decodeLossy bytes)) }
  return { settings, files, homes, network, clock := ← now }

/-- Runs a command: its exit status. -/
def runCommand (command : Command) (paths : List String) : IO UInt32 := do
  match Settings.load (← environment) [] with
  | .error e =>
    IO.eprintln e.message
    return 1
  | .ok settings =>
    let before ← world settings paths
    let (after, result) := command.run before
    writeBack before.files after.files
    match result with
    | .error e =>
      IO.eprintln e.message
      return 1
    | .ok output =>
      IO.print output.stdout
      IO.eprint output.stderr
      return output.status.toUInt32

end LuaAudit.Main

open LuaAudit in
/-- Runs the command that the arguments name. -/
def main (args : List String) : IO UInt32 := do
  match Command.parse? args with
  | some command => Main.runCommand command (args.drop 1)
  | none =>
    IO.eprintln "usage: scan [path ...] | refresh-docs | clear-docs [--yes]"
    return 2
