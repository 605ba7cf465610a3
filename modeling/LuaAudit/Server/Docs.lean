import LuaAudit.Server.Deadline
import LuaAudit.Server.Envelope
import LuaAudit.Server.Lint

/-!
# The docs tool

Looks functions up, lists them and their sources, and keeps the catalogue up to date.  Its answers
are marked as untrusted.

* `DocsCall` is a call of the tool;
* `docs` answers it.
-/

namespace LuaAudit.Server

open Docs (Source)
open Index (Catalogue)

/-- A call of the docs tool. -/
structure DocsCall where
  action : String
  name : Option String := none
  source : Option String := none
  url : Option String := none
  kind : String := Docs.Kind.annotated.name
  confirm : Bool := false
  limit : Int := 50

/-! ### Looking up -/

/-- Shows the signature of a function. -/
def lookup (name : String) : Tool String := do
  let c ← Tool.catalogue
  match c.lookup? (← Tool.settings) name with
  | some f => return f.toJson.render .file
  | none =>
    return (Json.obj [("error", .str ("Function '" ++ name ++ "' not found")),
      ("name", .str name)]).render .line

/-- Lists the functions of one source or of all, up to a limit. -/
def listFunctions (source : Option String) (limit : Int) : Tool String := do
  let c ← Tool.catalogue
  let functions := (c.functions (← Tool.settings)).filter fun f =>
    match given source with
    | some source => f.source = source
    | none => true
  let shown := (functions.take limit.toNat).map fun f =>
    Json.str (f.name ++ " (" ++ f.source ++ ")")
  return (Json.obj [("functions", .arr shown), ("total", .int functions.length)]).render .file

/-- Lists the sources. -/
def listSources : Tool String := do
  let c ← Tool.catalogue
  let s ← Tool.settings
  return (Json.obj [
    ("cache_path", .str c.path.text),
    ("sources", .arr ((c.ordered s).map Catalogue.sourceJson)),
    ("configured", .arr (s.sources.map (·.toJson)))]).render .report

/-! ### Keeping up to date -/

/-- Asks for a refresh. -/
def callRefresh : Tool Unit := do
  let _ ← Tool.catalogue
  modify fun s => { s with queue := s.queue.refresh toolCaller none }

/-- Refreshes every source. -/
def refreshDocs : Tool String :=
  awaitReport "refresh" callRefresh fun report => return report.toJson.render .report

/-- Puts a source into the settings, in place of those of the same name. -/
def putSource (source : Source) (s : Settings) : Settings :=
  s.setSources (s.sources.filter (·.name ≠ source.name) ++ [source])

/-- Asks for a source to be added. -/
def callAdd (source : Source) : Tool Unit := do
  Tool.changeSettings (putSource source)
  let _ ← Tool.catalogue
  modify fun s => { s with queue := s.queue.add toolCaller source }

/-- Adds a source. -/
def addSource (source : Source) : Tool String :=
  awaitReport "add_source" (callAdd source) fun report =>
    match report.failed.get? source.name with
    | some reason => return "Error: " ++ reason
    | none => return (Json.obj ([("status", .str "added"), ("source", source.toJson)] ++
        report.fields)).render .report

/-- Adds a source given by its parts. -/
def addNamed (name url : Option String) (kind : String) : Tool String :=
  match given name, given url with
  | some name, some url => match Docs.Kind.parse kind with
    | .ok kind => addSource { name, url, kind }
    | .error e => return "Error: invalid source: " ++ (← get).packages.refusedKind e kind
  | _, _ => return "Error: name and url are required for add_source action"

/-- Forgets everything, if that is confirmed. -/
def clearDocs (confirm : Bool) : Tool String := do
  let c ← Tool.catalogue
  let s ← get
  let (site, result) := (Index.Site.mk s.world c).clear confirm
  set { s with world := site.world, catalogue := some site.catalogue }
  match result with
  | .error (.file e) => throw (.file e)
  | .error (.home e) => throw (.home e)
  | .ok true => return (Json.obj [("status", .str "cache cleared")]).render .line
  | .ok false => return (Json.obj [("status", .str "cancelled"),
      ("hint", .str "Pass confirm=true to delete the documentation cache")]).render .line

/-! ### The tool -/

/-- Answers a call, with nothing marked yet. -/
def plainDocs (call : DocsCall) : Tool String := do
  if !(← Tool.settings).flag .documentation then
    return "Error: documentation features are disabled"
  match call.action with
  | "lookup" => match given call.name with
    | none => return "Error: name is required for lookup action"
    | some name => lookup name
  | "list" => listFunctions call.source call.limit
  | "sources" => listSources
  | "refresh" => refreshDocs
  | "add_source" => addNamed call.name call.url call.kind
  | "clear" => clearDocs call.confirm
  | action =>
    return unknownAction action ["lookup", "list", "sources", "refresh", "add_source", "clear"]

/-- Answers a call of the docs tool. -/
def docs (call : DocsCall) : Tool String := do return wrap "docs" (← plainDocs call)

end LuaAudit.Server
