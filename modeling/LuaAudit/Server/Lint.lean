import LuaAudit.Json.Writer
import LuaAudit.Lint.Report
import LuaAudit.Server.Basic

/-!
# The lint tool

Scans a text, a file or a workspace, and shows what was found.

* `LintCall` is a call of the tool;
* `lint` answers it.
-/

namespace LuaAudit.Server

open Lint (Diagnostic)
open Location (Path)
open Scan (Document Scheduler)

/-- A call of the lint tool. -/
structure LintCall where
  action : String
  text : Option String := none
  path : Option String := none
  uri : Option String := none
  pattern : Option String := none

/-- A given text, unless it is empty. -/
def given (text : Option String) : Option String := text.filter (· ≠ "")

/-- What was found in a document. -/
def findings (uri : String) (found : List Diagnostic) : Json :=
  .obj [("uri", .str uri), ("diagnostics", .arr (found.map (·.toJson))),
    ("total", .int found.length)]

/-- The answer to an action that the tool does not know. -/
def unknownAction (action : String) (valid : List String) : String :=
  (Json.obj [("error", .str ("Unknown action: " ++ action)),
    ("valid_actions", .arr (valid.map .str))]).render .line

/-- Scans a document and shows what was found. -/
def scanDocument (d : Document) : Tool String := do
  let (x, _, found) := (← Tool.scheduler).scanNow (← Tool.settings) d
  Tool.keepScheduler x
  return (findings d.uri found).render .file

/-- Scans a file. -/
def scanFile (path : String) : Tool String := do
  let w := (← get).world
  let p ← Tool.path ((Path.parse path).expandUser w.homes)
  if !(← Tool.asked (w.files.isFile p)) then return "Error: file not found: " ++ path
  match Scan.readDocument w.files p with
  | .ok d => scanDocument d
  | .error e => return "Error: cannot read " ++ path ++ ": " ++ e.message

/-- What was found in the documents that had something in them. -/
def documentFindings (store : Scan.Store) (uris : List String) : List (String × List Diagnostic) :=
  uris.filterMap fun uri => match store.get? uri with
    | some found => if found.isEmpty then none else some (uri, found)
    | none => none

/-- The answer about a workspace: how many files were scanned, those that could not be read, and
    what was found in the others. -/
def workspaceAnswer (root : Path) (report : Scan.WorkspaceReport)
    (found : List (String × List Diagnostic)) : String :=
  (Json.obj [
    ("root", .str root.text),
    ("files_scanned", .int report.scheduled.length),
    ("failed", .obj (report.failed.map Json.str).entries),
    ("files", .arr (found.map fun f => findings f.1 f.2)),
    ("total", .int (found.foldl (fun n f => n + f.2.length) 0 : Nat))]).render .file

/-- Scans the documents of a workspace that were scheduled, and tells what was found. -/
def concludeScan (root : Path)
    (scanned : Scheduler × Except Scan.WorkspaceError Scan.WorkspaceReport) :
    Tool String := do
  match scanned with
  | (x, .error e) =>
    Tool.keepScheduler x
    throw (.scan e)
  | (x, .ok report) =>
    let (y, _) := x.flush (← Tool.settings)
    Tool.keepScheduler y
    return workspaceAnswer root report (documentFindings y.store report.scheduled)

/-- Scans every file of a workspace at once. -/
def scanRoot (root : Path) (pattern : Option String) : Tool String := do
  let x ← Tool.scheduler
  let w := (← get).world
  concludeScan root (x.scanWorkspace w.settings w.files root pattern)

/-- Scans a workspace: the given directory, or that of the settings.  A refresh in the background
    gets a chance to start when the tool has a deadline. -/
def scanWorkspace (path pattern : Option String) : Tool String := do
  let w := (← get).world
  let root ← Tool.path (match given path with
    | some p => (Path.parse p).expandUser w.homes
    | none => w.workspaceRoot)
  if !(← Tool.asked (w.files.isDir root)) then return "Error: directory not found: " ++ root.text
  if 0 < w.settings.count .toolTimeout then modify fun s => s.passTime 0
  scanRoot root pattern

/-- Shows what is known of one document or of all. -/
def results (uri : Option String) : Tool String := do
  let store := (← Tool.scheduler).store
  match given uri with
  | some uri => match store.get? uri with
    | some found => return (findings uri found).render .report
    | none => return (Json.obj [("error", .str ("No results for " ++ uri))]).render .line
  | none => return (Json.arr (store.entries.map fun e => findings e.1 e.2)).render .file

/-- Forgets a document. -/
def closeDocument (uri : String) : Tool String := do
  let (x, _) := (← Tool.scheduler).close uri
  Tool.keepScheduler x
  return (Json.obj [("status", .str "closed"), ("uri", .str uri)]).render .line

/-- Answers a call of the lint tool. -/
def lint (call : LintCall) : Tool String :=
  match call.action with
  | "scan_text" => match call.text with
    | none => return "Error: text is required for scan_text action"
    | some text =>
      scanDocument { uri := (given call.uri).getD "untitled:scratch.lua", text := some text }
  | "scan_file" => match given call.path with
    | none => return "Error: path is required for scan_file action"
    | some path => scanFile path
  | "scan_workspace" => scanWorkspace call.path call.pattern
  | "results" => results call.uri
  | "close" => match given call.uri with
    | none => return "Error: uri is required for close action"
    | some uri => closeDocument uri
  | action =>
    return unknownAction action ["scan_text", "scan_file", "scan_workspace", "results", "close"]

end LuaAudit.Server
