import LuaAudit.Docs.Comment
import LuaAudit.Docs.Declaration
import LuaAudit.Json.Reader
import LuaAudit.Json.Show
import LuaAudit.Docs.Record

/-!
# Extracting signatures

The signatures in the content of a documentation source, by the kind of the source.

* `walk` goes through a file line by line and attaches each comment block to the declaration below
  it;
* `extractPlain` searches a file for declarations;
* `readEntry` reads an entry of a JSON catalog step by step, `extractCatalog` all of them;
* `extract` chooses by kind.
-/

namespace LuaAudit.Docs

/-- Signatures by name. -/
abbrev Signatures := OrderedMap String Signature

/-- The signature of a declaration, with the lines of its comment if it has one. -/
def signature (source : String) (d : Declaration) (comment : Option (List (List Char))) :
    Signature :=
  match comment with
  | none => {
      name := String.ofList d.name
      source
      description := "Function from " ++ source
      parameters := Comment.parameters d.parameters [] }
  | some lines => {
      name := String.ofList d.name
      source
      description := Comment.description lines
      parameters := Comment.parameters d.parameters lines
      returns := Comment.returnDocs lines
      examples := Comment.examples lines }

/-! ### Line by line -/

/-- What was found so far, and the comment lines that wait for a declaration. -/
structure Walk where
  found : Signatures := .empty
  pending : Option (List (List Char)) := none

/-- Reads one line, trimmed: a comment line waits, a declaration takes what waits, and any other
    line that is not blank detaches it. -/
def Walk.step (source : String) (shapes : List Shape) (w : Walk) (line : List Char) : Walk :=
  match Text.after? "---".toList line with
  | some rest => { w with pending := some (w.pending.getD [] ++ [Text.trim rest]) }
  | none =>
    match declaration? shapes line with
    | some d => {
        found := w.found.insert (String.ofList d.name) (signature source d w.pending)
        pending := none }
    | none => if line.isEmpty then w else { w with pending := none }

/-- The signatures of the lines of a file. -/
def walk (content source : String) (shapes : List Shape) : Signatures :=
  (((Text.splitOn '\n' content.toList).map Text.trim).foldl (Walk.step source shapes) {}).found

/-- The signatures of an annotated file. -/
def extractAnnotated (content source : String) : Signatures := walk content source annotatedShapes

/-- The signatures of a file that mixes annotations and exports. -/
def extractHybrid (content source : String) : Signatures := walk content source hybridShapes

/-! ### In the whole file -/

/-- The signatures of a file without comments, form by form; a file with annotations is read line by
    line. -/
def extractPlain (content source : String) : Signatures :=
  if Text.containsText "---@".toList content.toList then extractHybrid content source
  else
    let found := plainShapes.flatMap fun shape =>
      Text.occurrences shape.recogniser content.toList
    .ofList (found.map fun o => (String.ofList o.value.name, signature source o.value none))

/-! ### Catalogs -/

/-- Asks a value for a field, which only an object can be asked for. -/
def askField (v : Json) (key : String) : Except RecordError (Option Json) :=
  (fieldsOf v).map (Json.field? · key)

/-- Whether a value is an object. -/
def isObject : Json → Bool
  | .obj _ => true
  | _ => false

/-- Reads a parameter of a catalog. -/
def readParameter (v : Json) : Except RecordError Parameter := do
  let name ← askField v "name"
  let type ← askField v "type"
  let description ← askField v "description"
  let optional ← askField v "optional"
  return {
    name := textOr "unknown" name
    type := .ofJson type
    optional := optional.any Json.truthy
    description := .str (textOr "" description) }

/-- Reads a result of a catalog. -/
def readReturn (v : Json) : Except RecordError Return := do
  let type ← askField v "type"
  let description ← askField v "description"
  return { type := textOr "void" type, description := .str (textOr "" description) }

/-- The members of a list; any other value has none. -/
def listed : Option Json → List Json
  | some (.arr items) => items
  | _ => []

/-- The members of a list, or an object as the only one. -/
def listedOrOne : Option Json → List Json
  | some (.obj fields) => [.obj fields]
  | v => listed v

/-- The description of an entry, with the side it runs on when one is given. -/
def readDescription (source : String) (v : Json) : Except RecordError String := do
  let description ← askField v "description"
  let text := textOr ("Native function from " ++ source) description
  if (← askField v "side").any Json.truthy then
    let side ← keyed v "side"
    return text ++ " (Side: " ++ side.asText ++ ")"
  else return text

/-- Reads an entry of a catalog. -/
def readEntry (source key : String) (v : Json) : Except RecordError Signature := do
  let description ← readDescription source v
  let examples ← askField v "examples"
  let name ← askField v "name"
  let parameters ← askField v "parameters"
  let parameters ← ((listed parameters).filter isObject).mapM readParameter
  let returns ← askField v "returns"
  let returns ← ((listedOrOne returns).filter isObject).mapM readReturn
  return {
    name := textOr key name
    source
    description
    parameters
    returns
    examples := (listed examples).map (·.asText) }

/-- Adds an entry to those found so far.  What is no object is passed over, and so is an object that
    cannot be read. -/
def gather (source : String) (found : Signatures) (native : String × Json) : Signatures :=
  if isObject native.2 then
    match readEntry source native.1 native.2 with
    | .ok d => found.insert native.1 d
    | .error _ => found
  else found

/-- The signatures of a catalog, entry by entry; a content that is no JSON object has none.  JSON
    may be nested up to a limit. -/
def extractCatalog (limit : Json.Depth) (content source : String) :
    Except Json.ReadFault Signatures :=
  match Json.read limit content with
  | .ok (some (.obj natives)) => .ok (natives.foldl (gather source) .empty)
  | .ok _ => .ok .empty
  | .error fault => .error fault

/-- The signatures in the content of a source. -/
def extract (limit : Json.Depth) (content source : String) : Kind → Except Json.ReadFault Signatures
  | .annotated => .ok (extractAnnotated content source)
  | .plain => .ok (extractPlain content source)
  | .hybrid => .ok (extractHybrid content source)
  | .catalog => extractCatalog limit content source

end LuaAudit.Docs
