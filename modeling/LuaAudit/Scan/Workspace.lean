import LuaAudit.Files.Glob
import LuaAudit.Location.Url
import LuaAudit.Scan.Schedule

/-!
# Scanning a workspace

Every file below a directory that fits a pattern is read and scheduled.  Files that cannot be read
are listed with the reason.

* `readDocument` reads one file as a document;
* `readWorkspace` reads the files of a directory, passing over some directories;
* `Scheduler.scanWorkspace` schedules them.
-/

namespace LuaAudit.Scan

open Location (Path)

/-- Directories that are never searched. -/
def skippedDirs : List String := ["node_modules", ".git"]

/-- Whether a path below a root passes through none of some directories. -/
def avoids (dirs : List String) (root p : Path) : Bool :=
  (Files.relativeParts root p).all fun part => !dirs.contains part

/-- Reads a file as a document, named by the URL of its absolute path. -/
def readDocument (fs : Files) (p : Path) : Except FileError Document :=
  (fs.readText p).map fun text => { uri := Location.fileUri (fs.resolve p), text := some text }

/-- The documents of a workspace, and the paths that could not be read. -/
structure Reading where
  documents : List Document := []
  failed : OrderedMap String String := .empty

/-- Reads one more path. -/
def Reading.add (fs : Files) (r : Reading) (p : Path) : Reading :=
  match readDocument fs p with
  | .ok d => { r with documents := r.documents ++ [d] }
  | .error e => { r with failed := r.failed.insert p.text e.message }

/-- Reads the files below a directory that fit a pattern. -/
def readWorkspace (fs : Files) (root : Path) (pattern : String) : Except GlobError Reading :=
  match fs.glob root pattern with
  | .error e => .error e
  | .ok paths =>
    match fs.filesAmong paths with
    | (_, some e) => .error (.file e)
    | (found, none) =>
      .ok ((found.filter (avoids skippedDirs root)).foldl (Reading.add fs) {})

/-- What a workspace scan did: the documents it scheduled and the paths that failed. -/
structure WorkspaceReport where
  scheduled : List String
  failed : OrderedMap String String

/-- The counts of a workspace scan as a record. -/
def WorkspaceReport.toJson (r : WorkspaceReport) : Json :=
  .obj [("scheduled", .int r.scheduled.length),
    ("failed", .obj (r.failed.map Json.str).entries)]

/-- The pattern to use: the given one, or the one of the settings when none is given. -/
def patternOr (s : Settings) (pattern : Option String) : String :=
  match pattern with
  | some p => if p = "" then s.label .workspaceGlob else p
  | none => s.label .workspaceGlob

/-- Why a workspace is not scanned: it cannot be searched, or the wait for a scan cannot be
    counted. -/
inductive WorkspaceError where
  | search (cause : GlobError)
  | wait
  deriving DecidableEq, Repr

/-- The wording of a workspace error. -/
def WorkspaceError.message : WorkspaceError → String
  | .search cause => cause.message
  | .wait => Scheduler.overlongWait

/-- Schedules documents one after the other, up to the first that cannot wait. -/
def Scheduler.scheduleAll (s : Settings) (x : Scheduler) : List Document → Scheduler × Bool
  | [] => (x, true)
  | d :: ds =>
    match x.trySchedule s d with
    | (y, true) => y.scheduleAll s ds
    | (y, false) => (y, false)

/-- Schedules every document of a workspace. -/
def Scheduler.scanWorkspace (s : Settings) (fs : Files) (x : Scheduler) (root : Path)
    (pattern : Option String) : Scheduler × Except WorkspaceError WorkspaceReport :=
  match readWorkspace fs root (patternOr s pattern) with
  | .error e => (x, .error (.search e))
  | .ok r =>
    match x.scheduleAll s r.documents with
    | (y, false) => (y, .error .wait)
    | (y, true) => (y, .ok ⟨r.documents.map (·.uri), r.failed⟩)

end LuaAudit.Scan
