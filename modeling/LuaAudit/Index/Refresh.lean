import LuaAudit.Fetch.Source
import LuaAudit.Index.Catalogue
import LuaAudit.Index.Report
import LuaAudit.Scan.Workspace

/-!
# Refreshing the catalogue

Sources are fetched one after the other, and the failure of one leaves the others alone.  Then the
types files of the workspace are read, and the catalogue is written.

* `refreshSource` brings one source up to date;
* `Site.loadWorkspace` reads the types files;
* `refresh` is the whole refresh;
* `Site.clear` forgets everything.
-/

namespace LuaAudit.Index

open Location (HomeError Path)
open Docs (Entry Source)

/-- The world, and the catalogue in it. -/
structure Site where
  world : World
  catalogue : Catalogue

namespace Site

/-- Opens the catalogue kept at a path, with nothing loaded. -/
def ofPath (w : World) (path : Path) : Site := ⟨w, { path }⟩

/-- Stores an entry, stamped with the time. -/
def store (site : Site) (name : String) (functions : Docs.Signatures) (etag lastModified : Json) :
    Site :=
  let (world, time) := site.world.readClock
  let entry : Entry := ⟨name, functions, .ofSeconds time, etag, lastModified⟩
  ⟨world, { site.catalogue with entries := site.catalogue.entries.insert name entry }⟩

/-- Adds what the file of the catalogue holds, and counts it. -/
def load (site : Site) : Except Catalogue.LoadFault (Site × Nat) :=
  (site.catalogue.load site.world.nesting site.world.files).map fun (catalogue, n) =>
    ({ site with catalogue }, n)

/-- Writes the catalogue. -/
def save (site : Site) : Site × Option Json.EncodingFault :=
  let (files, fault) := site.catalogue.save site.world.files
  ({ site with world := { site.world with files } }, fault)

/-! ### Types files of the workspace -/

/-- The name of the source that a file below a directory makes. -/
def workspaceName (root p : Path) : String :=
  "Local: " ++ Text.joinWith "/" (Files.relativeParts root p)

/-- Reads files as sources and lists those with functions in them; the others change nothing. -/
def loadFiles (root : Path) (site : Site) : List Path → Site × List (String × Nat)
  | [] => (site, [])
  | p :: ps =>
    let name := workspaceName root p
    match site.world.files.readText p with
    | .error _ => loadFiles root site ps
    | .ok content =>
      let functions := Docs.extractAnnotated content name
      if functions.isEmpty then loadFiles root site ps
      else
        let (site', loaded) := loadFiles root (site.store name functions .null .null) ps
        (site', (name, functions.size) :: loaded)

/-- Reads the types files of a workspace: the files that fit a pattern, outside some directories.
    Those before a path that cannot be asked for are read all the same. -/
def loadWorkspace (site : Site) (root : Path) (pattern : String) :
    Site × Except GlobError (List (String × Nat)) :=
  let files := site.world.files
  match files.glob root pattern with
  | .error e => (site, .error e)
  | .ok paths =>
    let (found, stop) := files.filesAmong paths
    let (site, loaded) := site.loadFiles root (found.filter (Scan.avoids Scan.skippedDirs root))
    (site, match stop with
      | some e => .error (.file e)
      | none => .ok loaded)

/-! ### Forgetting -/

/-- Why the catalogue cannot be forgotten. -/
inductive ClearError where
  | file (cause : FileError)
  | home (cause : HomeError)

/-- The wording of a clear error. -/
def ClearError.message : ClearError → String
  | .file cause => cause.message
  | .home cause => cause.message

/-- The files without those of the catalogue: its file, and everything else in its directory when
    that is the one for documentation. -/
def clearedFiles (w : World) (path : Path) : Files × Except ClearError Unit :=
  match w.files.remove path with
  | .error e => (w.files, .error (.file e))
  | .ok files =>
    match w.settings.cacheDir w.homes with
    | .error e => (files, .error (.home e))
    | .ok dir =>
      if files.resolve path.parent = files.resolve dir then
        match (files.removeTree dir).makeDirs dir with
        | (made, none) => (made, .ok ())
        | (made, some e) => (made, .error (.file e))
      else (files, .ok ())

/-- Forgets every entry and removes the file, if that is confirmed. -/
def clear (site : Site) (confirm : Bool) : Site × Except ClearError Bool :=
  if confirm then
    let (files, result) := clearedFiles site.world site.catalogue.path
    (⟨{ site.world with files }, { site.catalogue with entries := .empty }⟩,
      result.map fun _ => true)
  else (site, .ok false)

end Site

/-! ### The refresh -/

/-- A job on the world, run where there is a catalogue too. -/
def onWorld {α : Type} (job : Job World α) : Job Site α :=
  job.zoom Site.world fun world site => { site with world }

/-- Brings one source up to date and reports what became of it. -/
def refreshSource (source : Source) (r : Report) : Job Site Report :=
  Job.consult fun site => do
    match ← onWorld (Fetch.fetchSource source (site.catalogue.entries.get? source.name)) with
    | .error e => return { r with failed := r.failed.insert source.name e.message }
    | .ok page =>
      if page.isUnchanged then return { r with unchanged := r.unchanged ++ [source.name] }
      else match Docs.extract site.world.nesting (page.content.getD "") source.name source.kind with
        | .error e => return { r with failed := r.failed.insert source.name e.message }
        | .ok functions =>
          let mark (text : Option String) : Json := (text.map Json.str).getD .null
          Job.change fun site =>
            site.store source.name functions (mark page.etag) (mark page.lastModified)
          return { r with updated := r.updated.insert source.name functions.size }

/-- Brings sources up to date, one after the other. -/
def refreshSources : List Source → Report → Job Site Report
  | [], r => return r
  | source :: sources, r => do refreshSources sources (← refreshSource source r)

/-- Reads the types files of the workspace into a report, if the settings say so. -/
def addWorkspace (site : Site) (r : Report) : Site × Outcome :=
  let s := site.world.settings
  if s.flag .localTypes then
    match site.world.workspaceRoot with
    | .error e => (site, .error (.home e))
    | .ok root =>
      match site.loadWorkspace root (s.label .localTypesGlob) with
      | (site, .error e) => (site, .error (.pattern e))
      | (site, .ok loaded) => (site, .ok { r with workspace := .ofList loaded })
  else (site, .ok r)

/-- Ends a refresh: reads the types files, unless sources were asked for by name, and writes the
    catalogue, unless that breaks off. -/
def conclude (byName : Bool) (r : Report) (site : Site) : Site × Outcome :=
  match if byName then (site, .ok r) else addWorkspace site r with
  | (site, .error e) => (site, .error e)
  | (site, .ok r) =>
    match site.save with
    | (site, none) => (site, .ok r)
    | (site, some fault) => (site, .error (.encoding fault))

/-- Refreshes the given sources, or all those of the settings, of which only the enabled ones
    count. -/
def refresh (sources : Option (List Source)) : Job Site Outcome :=
  Job.consult fun site => do
    let pool := sources.getD site.world.settings.sources
    let report ← refreshSources (pool.filter (·.enabled)) {}
    Job.act (conclude sources.isSome report)

end LuaAudit.Index
