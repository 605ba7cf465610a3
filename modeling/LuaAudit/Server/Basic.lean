import LuaAudit.Index.Queue
import LuaAudit.Scan.Workspace

/-!
# The server

What the server remembers between calls of its tools, and what a tool is.  The scheduler and the
catalogue come into being when they are first needed.

* `Server` is the state;
* `Tool` is a computation that may change the state and may fail, keeping the state it has reached;
* `Tool.scheduler` and `Tool.catalogue` give what comes into being on first use;
* `Server.passTime` lets time pass, for a refresh that goes on in the background.
-/

namespace LuaAudit

open Index (Catalogue RefreshQueue Site)
open Location (HomeError Path)
open Scan (Scheduler)

/-- What the packages say that the server is built on: why the log takes no level of some name, if
    it does not, and how a source of an unknown kind is refused. -/
structure Packages where
  refusedLevel? : (level : String) → Option String
  refusedKind : (cause : Docs.UnknownKind) → (kind : String) → String

/-- The world, the packages, the directory of the manual, the level from which messages are shown if
    any are, the scans, the catalogue with the callers of a refresh, and whether a refresh is still
    to be started in the background. -/
structure Server where
  world : World
  packages : Packages
  manual : Path
  sink : Option String := none
  scheduler : Option Scheduler := none
  catalogue : Option Catalogue := none
  queue : RefreshQueue := {}
  armed : Bool := false

namespace Server

/-- Why a tool breaks off. -/
inductive ToolError where
  | home (cause : HomeError)
  | pattern (cause : GlobError)
  | file (cause : FileError)
  | load (cause : Catalogue.LoadFault)
  | encoding (cause : Json.EncodingFault)
  | scan (cause : Scan.WorkspaceError)
  | level (message : String)

/-- The wording of a tool error. -/
def ToolError.message : ToolError → String
  | .home cause => cause.message
  | .pattern cause => cause.message
  | .file cause => cause.message
  | .load cause => cause.message
  | .encoding cause => cause.message
  | .scan cause => cause.message
  | .level message => message

/-- A computation on the server that may fail. -/
abbrev Tool := ExceptT ToolError (StateM Server)

/-- A path of the settings, or why there is none. -/
def Tool.path (p : Except HomeError Path) : Tool Path :=
  match p with
  | .ok p => return p
  | .error e => throw (.home e)

/-- The settings in force. -/
def Tool.settings : Tool Settings := do return (← get).world.settings

/-- Changes the settings. -/
def Tool.changeSettings (f : Settings → Settings) : Tool Unit :=
  modify fun s => { s with world := { s.world with settings := f s.world.settings } }

/-- The scans, started on first use. -/
def Tool.scheduler : Tool Scheduler := do
  let x := (← get).scheduler.getD {}
  modify fun s => { s with scheduler := some x }
  return x

/-- Keeps the scans. -/
def Tool.keepScheduler (x : Scheduler) : Tool Unit := modify fun s => { s with scheduler := some x }

/-- An answer about the files, or why there is none. -/
def Tool.asked {α : Type} (answer : Except FileError α) : Tool α :=
  match answer with
  | .ok a => return a
  | .error e => throw (.file e)

/-- The catalogue, opened and loaded on first use.  It stays open when it cannot be loaded. -/
def Tool.catalogue : Tool Catalogue := do
  let s ← get
  match s.catalogue with
  | some c => return c
  | none =>
    let path ← Tool.path s.world.cachePath
    match Catalogue.load { path } s.world.nesting s.world.files with
    | .error fault =>
      set { s with catalogue := some { path } }
      throw (.load fault)
    | .ok (c, _) =>
      set { s with catalogue := some c }
      return c

/-- Changes the callers of a refresh and, with them, the world and the catalogue. -/
def onQueue (f : RefreshQueue → Site → RefreshQueue × Site) (s : Server) : Server :=
  match s.catalogue with
  | none => s
  | some c =>
    let (queue, site) := f s.queue ⟨s.world, c⟩
    { s with world := site.world, catalogue := some site.catalogue, queue }

/-! ### Callers -/

/-- The caller that refreshes in the background. -/
def backgroundCaller : Nat := 0

/-- The caller that a tool is. -/
def toolCaller : Nat := 1

/-- Starts the refresh in the background, if it is still to be started. -/
def beginBackground (s : Server) : Server :=
  if s.armed then
    { s with armed := false, queue := s.queue.refresh backgroundCaller none }
  else s

/-- Lets time pass for a refresh that is under way or to be started. -/
def passTime (s : Server) (ms : Nat) : Server :=
  s.beginBackground.onQueue fun d site => d.advance ms site

end Server

end LuaAudit
