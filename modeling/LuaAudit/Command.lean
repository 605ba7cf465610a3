import LuaAudit.Index.Queue
import LuaAudit.Lint.Report

/-!
# Commands

The commands of the program: `scan` lints files and directories once, `refresh-docs` brings the
documentation up to date, `clear-docs` forgets it.

* `Command.parse?` reads the arguments;
* `Command.run` runs a command on a world;
* `Output` is what it prints, and its exit status.
-/

namespace LuaAudit

open Location (HomeError Path)
open Lint (Diagnostic)

/-- A command. -/
inductive Command where
  | scan (paths : List String)
  | refreshDocs
  | clearDocs (confirmed : Bool)
  deriving DecidableEq, Repr

/-- The exit status of a command, and the texts it prints. -/
structure Output where
  status : Nat
  stdout : String
  stderr : String := ""
  deriving DecidableEq, Repr

/-- Why a command breaks off. -/
inductive CommandError where
  | home (cause : HomeError)
  | pattern (cause : GlobError)
  | file (cause : FileError)
  | load (cause : Index.Catalogue.LoadFault)
  | encoding (cause : Json.EncodingFault)
  | place (cause : Lint.PlaceError)
  deriving DecidableEq, Repr

/-- The wording of a command error. -/
def CommandError.message : CommandError → String
  | .home cause => cause.message
  | .pattern cause => cause.message
  | .file cause => cause.message
  | .load cause => cause.message
  | .encoding cause => cause.message
  | .place cause => cause.message

namespace Command

/-- The command that arguments name. -/
def parse? : List String → Option Command
  | "scan" :: paths => some (.scan paths)
  | "refresh-docs" :: _ => some .refreshDocs
  | "clear-docs" :: args => some (.clearDocs (args.contains "--yes"))
  | _ => none

/-- A path, or why there is none. -/
def pathOr (p : Except HomeError Path) : Except CommandError Path :=
  match p with
  | .ok p => .ok p
  | .error e => .error (.home e)

/-! ### Scanning -/

/-- Where to look: the given paths, or the workspace. -/
def targets (w : World) (paths : List String) : Except CommandError (List Path) :=
  if paths.isEmpty then (pathOr w.workspaceRoot).map fun p => [p]
  else paths.mapM fun p => pathOr ((Path.parse p).expandUser w.homes)

/-- An answer about the files, or why there is none. -/
def asked {α : Type} (answer : Except FileError α) : Except CommandError α :=
  match answer with
  | .ok a => .ok a
  | .error e => .error (.file e)

/-- The files below a directory that fit the pattern of the settings, outside one directory. -/
def filesBelow (w : World) (target : Path) : Except CommandError (List Path) :=
  match w.files.glob target (w.settings.label .workspaceGlob) with
  | .error e => .error (.pattern e)
  | .ok paths =>
    match w.files.filesAmong paths with
    | (_, some e) => .error (.file e)
    | (found, none) => .ok (found.filter (Scan.avoids ["node_modules"] target))

/-- The files of a target, or none when there is nothing there. -/
def filesOf? (w : World) (target : Path) : Except CommandError (Option (List Path)) := do
  if ← asked (w.files.isDir target) then return some (← filesBelow w target)
  else if ← asked (w.files.isFile target) then return some [target]
  else return none

/-- The files of several targets, and the messages about missing ones. -/
def collect (w : World) : List Path → Except CommandError (List Path × List String)
  | [] => .ok ([], [])
  | target :: rest => do
    let found ← filesOf? w target
    let (files, messages) ← collect w rest
    match found with
    | some more => return (more ++ files, messages)
    | none => return (files, ("Not found: " ++ target.text) :: messages)

/-- What was found in the files that had something in them, and the messages about files that cannot
    be read. -/
def lintFiles (w : World) :
    List Path → Except CommandError (List (Path × List Diagnostic) × List String)
  | [] => .ok ([], [])
  | p :: ps =>
    match w.files.readText p with
    | .error e => do
      let (results, messages) ← lintFiles w ps
      return (results, ("Cannot read " ++ p.text ++ ": " ++ e.message) :: messages)
    | .ok text =>
      match Lint.lint w.settings text with
      | .error e => .error (.place e)
      | .ok found => do
        let (results, messages) ← lintFiles w ps
        return (if found.isEmpty then results else (p, found) :: results, messages)

/-- The findings in a file as a record. -/
def fileFindings (f : Path × List Diagnostic) : Json :=
  .obj [("path", .str f.1.text), ("diagnostics", .arr (f.2.map (·.toJson)))]

/-- Lines of a text, each ended. -/
def printed (lines : List String) : String := String.join (lines.map (· ++ "\n"))

/-- Lints files and directories. -/
def scanPaths (w : World) (paths : List String) : Except CommandError Output := do
  let (files, missing) ← collect w (← targets w paths)
  let (results, unreadable) ← lintFiles w files
  let failed := results.any fun f => f.2.any fun d => d.severity = .error
  return {
    status := if failed then 1 else 0
    stdout := printed [(Json.arr (results.map fileFindings)).render .file]
    stderr := printed (missing ++ unreadable) }

/-! ### Documentation -/

/-- Brings the documentation up to date. -/
def refreshAll (w : World) : World × Except CommandError Output :=
  match w.cachePath with
  | .error e => (w, .error (.home e))
  | .ok path =>
    match (Index.Site.ofPath w path).load with
    | .error fault => (w, .error (.load fault))
    | .ok (site, _) =>
      let (site, outcome, _) := (Index.refresh none).run site
      (site.world, match outcome with
        | .ok report => .ok {
            status := if report.failed.isEmpty then 0 else 1
            stdout := printed [report.toJson.render .report] }
        | .error (.home e) => .error (.home e)
        | .error (.pattern e) => .error (.pattern e)
        | .error (.encoding e) => .error (.encoding e))

/-- Forgets the documentation. -/
def forget (w : World) (confirmed : Bool) : World × Except CommandError Output :=
  match w.cachePath with
  | .error e => (w, .error (.home e))
  | .ok path =>
    let (site, result) := (Index.Site.ofPath w path).clear confirmed
    (site.world, match result with
      | .ok true => .ok {
          status := 0
          stdout := printed ["Documentation cache cleared: " ++ path.parent.text] }
      | .ok false => .ok {
          status := 1
          stdout := printed ["Refusing to clear the documentation cache without --yes"] }
      | .error (.home e) => .error (.home e)
      | .error (.file e) => .error (.file e))

/-- Runs a command. -/
def run (w : World) : Command → World × Except CommandError Output
  | .scan paths => (w, scanPaths w paths)
  | .refreshDocs => refreshAll w
  | .clearDocs confirmed => forget w confirmed

end Command

end LuaAudit
