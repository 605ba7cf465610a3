import LuaAudit.Docs.Extract
import LuaAudit.Docs.Record
import LuaAudit.Files.Basic
import LuaAudit.Json.Reader
import LuaAudit.Json.Writer
import LuaAudit.Settings.Basic

/-!
# The catalogue

What is known of each documentation source, kept in one file as JSON.

* `Catalogue.load` adds what the file holds, passing over what cannot be read, and fails when the
  file cannot even be asked for;
* `Catalogue.save` writes the file, and fails when the text cannot be encoded;
* `Catalogue.ordered` lists the entries with the preferred sources first, and `lookup?` finds a
  function by that order.
-/

namespace LuaAudit.Index

open Location (Path)
open Docs (Entry Signature)

/-- The entries of all sources, and the file they are kept in. -/
structure Catalogue where
  path : Path
  entries : OrderedMap String Entry := .empty

namespace Catalogue

/-! ### Keeping -/

/-- Why the file is not looked into: it cannot be asked for, or what it holds is nested too deep. -/
inductive LoadFault where
  | file (cause : FileError)
  | nesting (cause : Json.ReadFault)
  deriving DecidableEq, Repr

/-- The wording of a load fault. -/
def LoadFault.message : LoadFault → String
  | .file cause => cause.message
  | .nesting cause => cause.message

/-- The fields of the object that some bytes write, if they write one. -/
def fieldsIn? (limit : Json.Depth) (bytes : Bytes) :
    Except LoadFault (Option (List (String × Json))) :=
  match Text.Utf8.decode? bytes with
  | none => .ok none
  | some text =>
    match Json.read limit (String.ofList (Text.unifyNewlines text)) with
    | .ok (some (.obj fields)) => .ok (some fields)
    | .ok _ | .error (.longNumber _) => .ok none
    | .error (.tooDeep atObject) => .error (.nesting (.tooDeep atObject))

/-- The fields of the object that a file holds, if it holds one. -/
def storedFields? (limit : Json.Depth) (fs : Files) (p : Path) :
    Except LoadFault (Option (List (String × Json))) :=
  match fs.pathExists p with
  | .error e => .error (.file e)
  | .ok false => .ok none
  | .ok true =>
    match fs.read p with
    | .error _ => .ok none
    | .ok bytes => fieldsIn? limit bytes

/-- Adds the entries that can be read, and counts them. -/
def addStored (c : Catalogue) : List (String × Json) → Catalogue × Nat
  | [] => (c, 0)
  | (name, v) :: rest =>
    match Entry.ofJson name v with
    | .ok e =>
      let (c', n) := addStored { c with entries := c.entries.insert name e } rest
      (c', n + 1)
    | .error _ => c.addStored rest

/-- Adds what the file holds, and counts it; a file that is no JSON object holds nothing. -/
def load (c : Catalogue) (limit : Json.Depth) (fs : Files) : Except LoadFault (Catalogue × Nat) :=
  match storedFields? limit fs c.path with
  | .error fault => .error fault
  | .ok (some fields) => .ok (c.addStored fields)
  | .ok none => .ok (c, 0)

/-- The entries as JSON. -/
def toJson (c : Catalogue) : Json := .obj (c.entries.map (·.toJson)).entries

/-- The text of the file. -/
def fileText (c : Catalogue) : String := c.toJson.render .file

/-- Writes the file, with the directories it stands in; a file that cannot be written is passed
    over.  A text that cannot be encoded is a failure, which leaves the file empty. -/
def save (c : Catalogue) (fs : Files) : Files × Option Json.EncodingFault :=
  match fs.makeDirs c.path.parent with
  | (made, some _) => (made, none)
  | (made, none) =>
    let fault := c.toJson.encodingFault? .file
    let bytes := if fault.isSome then [] else Text.Utf8.encode c.fileText.toList
    match made.write c.path bytes with
    | .ok written => (written, fault)
    | .error _ => (made, none)

/-! ### Looking up -/

/-- The entries in order of preference: those of the preferred names, as often as they are named,
    then all others. -/
def ordered (s : Settings) (c : Catalogue) : List Entry :=
  let preferred := s.roster .sourcePriority
  preferred.filterMap c.entries.get? ++
    (c.entries.entries.filter fun e => !preferred.contains e.1).map Prod.snd

/-- The function of a name, from the first source that has it. -/
def lookup? (s : Settings) (c : Catalogue) (name : String) : Option Signature :=
  (c.ordered s).findSome? fun e => e.functions.get? name

/-- All functions, in order of preference. -/
def functions (s : Settings) (c : Catalogue) : List Signature :=
  (c.ordered s).flatMap fun e => e.functions.values

/-- A source in a listing. -/
def sourceJson (e : Entry) : Json :=
  .obj [("source", .str e.source), ("functions", .int e.functions.size),
    ("last_update", .str e.updated.text)]

end Catalogue

end LuaAudit.Index
