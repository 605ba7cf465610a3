import LuaAudit.Docs.Signature
import LuaAudit.Docs.Timestamp
import LuaAudit.Json.Show

/-!
# Signatures as data

How signatures and cached entries are written as JSON and read back.  Reading fills in what is
missing and normalises what has another type; what it cannot read is a `RecordError`.

* `toJson` writes, `ofJson` reads each record;
* `Entry` is what the cache keeps of one source.
-/

namespace LuaAudit.Docs

/-- What the cache keeps of one source: its functions, when they were stored, and the two marks by
    which the server recognises a version. -/
structure Entry where
  source : String
  functions : OrderedMap String Signature
  updated : Timestamp
  etag : Json := .null
  lastModified : Json := .null

/-- Why a value is no record. -/
inductive RecordError where
  | missingKey (key : String)
  | notKeyed (value : Json)
  | notIterable (value : Json)
  | noMember (value : Json) (member : String)
  | notText
  | timestamp (cause : TimestampError)

/-- The word for the type of a value. -/
def typeWord : Json → String
  | .null => "NoneType"
  | .bool _ => "bool"
  | .int _ => "int"
  | .real _ => "float"
  | .str _ | .ragged _ => "str"
  | .arr _ => "list"
  | .obj _ => "dict"

/-- The wording of a record error. -/
def RecordError.message : RecordError → String
  | .missingKey key => Text.quote key
  | .notKeyed (.arr _) => "list indices must be integers or slices, not str"
  | .notKeyed (.str _) | .notKeyed (.ragged _) => "string indices must be integers, not 'str'"
  | .notKeyed v => "'" ++ typeWord v ++ "' object is not subscriptable"
  | .notIterable v => "'" ++ typeWord v ++ "' object is not iterable"
  | .noMember v member => "'" ++ typeWord v ++ "' object has no attribute '" ++ member ++ "'"
  | .notText => "fromisoformat: argument must be str"
  | .timestamp cause => cause.message

/-! ### Reading pieces -/

/-- A field that must be there. -/
def keyed (v : Json) (key : String) : Except RecordError Json :=
  match v with
  | .obj fields => match Json.field? fields key with
    | some x => .ok x
    | none => .error (.missingKey key)
  | _ => .error (.notKeyed v)

/-- The fields of a record. -/
def fieldsOf : Json → Except RecordError (List (String × Json))
  | .obj fields => .ok fields
  | v => .error (.noMember v "get")

/-- A field as text, or a default when it is missing or counts as absent. -/
def textOr (default : String) (v : Option Json) : String :=
  match v with
  | some x => if x.truthy then x.asText else default
  | none => default

/-- The members of a value that is listed: a text has its characters and an object its keys.  What
    counts as absent has none. -/
def members (v : Option Json) : Except RecordError (List Json) :=
  match v with
  | none => .ok []
  | some x =>
    if !x.truthy then .ok []
    else match x with
      | .arr items => .ok items
      | .str s => .ok (s.toList.map fun c => .str (String.ofList [c]))
      | .ragged points => .ok (points.map fun p => .ofPoints [p])
      | .obj fields => .ok (fields.map fun f => .str f.1)
      | x => .error (.notIterable x)

/-! ### Parameters, results and signatures -/

/-- A description as a field, left out when there is none. -/
def descriptionField : Json → List (String × Json)
  | .null => []
  | v => [("description", v)]

/-- A parameter from its fields. -/
def Parameter.ofFields (fields : List (String × Json)) : Parameter where
  name := textOr "unknown" (Json.field? fields "name")
  type := .ofJson (Json.field? fields "type")
  optional := (Json.field? fields "optional").any Json.truthy
  description := (Json.field? fields "description").getD .null

/-- Reads a parameter. -/
def Parameter.ofJson (v : Json) : Except RecordError Parameter := (fieldsOf v).map .ofFields

/-- Writes a parameter. -/
def Parameter.toJson (p : Parameter) : Json :=
  .obj ([("name", .str p.name), ("type", .str p.type.text), ("optional", .bool p.optional)] ++
    descriptionField p.description)

/-- A result from its fields. -/
def Return.ofFields (fields : List (String × Json)) : Return where
  type := textOr "any" (Json.field? fields "type")
  description := (Json.field? fields "description").getD .null

/-- Reads a result. -/
def Return.ofJson (v : Json) : Except RecordError Return := (fieldsOf v).map .ofFields

/-- Writes a result. -/
def Return.toJson (r : Return) : Json :=
  .obj (("type", .str r.type) :: descriptionField r.description)

/-- The objects among some values, read. -/
def objects {α : Type} (read : List (String × Json) → α) (vs : List Json) : List α :=
  vs.filterMap fun v => match v with
    | .obj fields => some (read fields)
    | _ => none

/-- Reads a signature. -/
def Signature.ofJson (v : Json) : Except RecordError Signature := do
  let name ← keyed v "name"
  let parameters ← members (v.get? "parameters")
  let returns ← members (v.get? "returns")
  let examples ← members (v.get? "examples")
  return {
    name := name.asText
    source := match v.get? "source" with
      | some x => x.asText
      | none => ""
    description := textOr "" (v.get? "description")
    parameters := objects Parameter.ofFields parameters
    returns := objects Return.ofFields returns
    examples := examples.map (·.asText) }

/-- Writes a signature. -/
def Signature.toJson (s : Signature) : Json :=
  .obj [
    ("name", .str s.name),
    ("source", .str s.source),
    ("description", .str s.description),
    ("parameters", .arr (s.parameters.map (·.toJson))),
    ("returns", .arr (s.returns.map (·.toJson))),
    ("examples", .arr (s.examples.map .str))]

/-! ### Entries -/

/-- The named members of an object; what counts as absent has none. -/
def namedMembers (v : Option Json) : Except RecordError (List (String × Json)) :=
  match v with
  | none => .ok []
  | some x =>
    if !x.truthy then .ok []
    else match x with
      | .obj fields => .ok fields
      | x => .error (.noMember x "items")

/-- Reads the time of an entry. -/
def readTime (v : Json) : Except RecordError Timestamp :=
  match v with
  | .str _ | .ragged _ =>
    match Timestamp.parse v.asText with
    | .ok t => .ok t
    | .error e => .error (.timestamp e)
  | _ => .error .notText

/-- Reads the entry of a source. -/
def Entry.ofJson (name : String) (v : Json) : Except RecordError Entry := do
  let fields ← fieldsOf v
  let named ← namedMembers (Json.field? fields "functions")
  let functions ← named.mapM fun (key, x) => do return (key, ← Signature.ofJson x)
  let time ← keyed v "lastUpdate"
  let updated ← readTime time
  return {
    source := textOr name (Json.field? fields "source")
    functions := .ofList functions
    updated
    etag := (Json.field? fields "etag").getD .null
    lastModified := (Json.field? fields "lastModified").getD .null }

/-- A version mark as a field, left out when it counts as absent. -/
def markField (key : String) (v : Json) : List (String × Json) :=
  if v.truthy then [(key, v)] else []

/-- Writes an entry. -/
def Entry.toJson (e : Entry) : Json :=
  .obj ([
    ("functions", .obj (e.functions.map (·.toJson)).entries),
    ("lastUpdate", .str e.updated.text),
    ("source", .str e.source)] ++ markField "etag" e.etag ++
    markField "lastModified" e.lastModified)

end LuaAudit.Docs
