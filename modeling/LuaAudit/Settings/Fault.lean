import LuaAudit.Number.Literal
import LuaAudit.Settings.Basic

/-!
# Reading setting values

A setting accepts a little more than values of its own type: a flag may be a word or a number, a
whole number may be a text.  What it does not accept is a `Fault`, which says where and why.

* `readFlag`, `readCount`, `readLabel`, `readDelay` read one value;
* `readMany` reads a list and gathers the faults of all its members;
* `readSource` reads a documentation source.
-/

namespace LuaAudit

/-- Why a value is not accepted. -/
inductive Fault.Cause where
  | missing
  | stringType
  | boolType
  | boolParsing
  | intType
  | intParsing
  | intFromFloat
  | floatType
  | floatParsing
  | listType
  | enumMember
  | valueError
  | modelType
  | extraForbidden
  deriving DecidableEq, Repr

/-- The name of a cause in reports. -/
def Fault.Cause.name : Fault.Cause → String
  | .missing => "missing"
  | .stringType => "string_type"
  | .boolType => "bool_type"
  | .boolParsing => "bool_parsing"
  | .intType => "int_type"
  | .intParsing => "int_parsing"
  | .intFromFloat => "int_from_float"
  | .floatType => "float_type"
  | .floatParsing => "float_parsing"
  | .listType => "list_type"
  | .enumMember => "enum"
  | .valueError => "value_error"
  | .modelType => "model_type"
  | .extraForbidden => "extra_forbidden"

/-- A value that is not accepted: the names and indices that lead to it, and the cause. -/
structure Fault where
  path : List String
  cause : Fault.Cause
  deriving DecidableEq, Repr

/-- A value, or all the faults found in it. -/
abbrev Checked (α : Type) := Except (List Fault) α

/-- One fault, right here. -/
def Checked.refuse {α : Type} (cause : Fault.Cause) : Checked α := .error [⟨[], cause⟩]

/-- The faults of a part, seen from the whole. -/
def Checked.within {α : Type} (step : String) : Checked α → Checked α
  | .ok a => .ok a
  | .error faults => .error (faults.map fun f => { f with path := step :: f.path })

/-- Two values, or the faults of both. -/
def Checked.both {α β γ : Type} (f : α → β → γ) : Checked α → Checked β → Checked γ
  | .ok a, .ok b => .ok (f a b)
  | .ok _, .error es => .error es
  | .error es, .ok _ => .error es
  | .error es, .error es' => .error (es ++ es')

/-- The words for off and on. -/
def flagWord? (s : String) : Option Bool :=
  let word := String.ofList (s.toList.map Char.toLower)
  if ["0", "off", "f", "false", "n", "no"].contains word then some false
  else if ["1", "on", "t", "true", "y", "yes"].contains word then some true
  else none

/-- A flag: on or off, one or zero, or a word for it. -/
def readFlag : Json → Checked Bool
  | .bool b => .ok b
  | .int n =>
    if n = 0 then .ok false else if n = 1 then .ok true else .refuse .boolParsing
  | .real x =>
    match x.toInt? with
    | some n => if n = 0 then .ok false else if n = 1 then .ok true else .refuse .boolParsing
    | none => .refuse .boolType
  | .str s => match flagWord? s with
    | some b => .ok b
    | none => .refuse .boolParsing
  | _ => .refuse .boolType

/-- A text without a fraction that is all zeros. -/
def dropZeroFraction (cs : List Char) : List Char :=
  match cs.dropWhile (· != '.') with
  | '.' :: places => if places.all (· == '0') then cs.takeWhile (· != '.') else cs
  | _ => cs

/-- A whole number, also given as a flag, a real without fraction, or a text. -/
def readCount : Json → Checked Int
  | .bool b => .ok (if b then 1 else 0)
  | .int n => .ok n
  | .real x => match x.toInt? with
    | some n => .ok n
    | none => .refuse .intFromFloat
  | .str s => match Number.integer? Number.asciiDigit? (dropZeroFraction (Text.trim s.toList)) with
    | some n => .ok n
    | none => .refuse .intParsing
  | _ => .refuse .intType

/-- A number of seconds, also given as a flag or a text. -/
def readDelay : Json → Checked Seconds
  | .bool b => .ok (.real (.ofInt (if b then 1 else 0)))
  | .int n => .ok (.real (.ofInt n))
  | .real x => .ok (.real x)
  | .str s => match Number.real? s.toList with
    | some x => .ok (.real x)
    | none => .refuse .floatParsing
  | _ => .refuse .floatType

/-- A text. -/
def readLabel : Json → Checked String
  | .str s => .ok s
  | _ => .refuse .stringType

/-- The members of a list from an index on. -/
def readItems {α : Type} (read : Json → Checked α) : (index : Nat) → List Json → Checked (List α)
  | _, [] => .ok []
  | index, v :: vs =>
    .both List.cons ((read v).within (toString index)) (readItems read (index + 1) vs)

/-- A list. -/
def readMany {α : Type} (read : Json → Checked α) : Json → Checked (List α)
  | .arr items => readItems read 0 items
  | _ => .refuse .listType

/-- A kind of documentation. -/
def readKind : Json → Checked Docs.Kind
  | .str s => match Docs.Kind.parse s with
    | .ok kind => .ok kind
    | .error _ => .refuse .valueError
  | _ => .refuse .enumMember

/-- A field that must be present. -/
def required {α : Type} (read : Json → Checked α) (fields : List (String × Json)) (key : String) :
    Checked α :=
  Checked.within key <| match Json.field? fields key with
    | some v => read v
    | none => .refuse .missing

/-- A field that may be left out. -/
def optional {α : Type} (read : Json → Checked α) (fields : List (String × Json)) (key : String)
    (default : α) : Checked α :=
  match Json.field? fields key with
  | some v => (read v).within key
  | none => .ok default

/-- The fields of a source, where an older `type` stands for a missing `kind`. -/
def withKind (fields : List (String × Json)) : List (String × Json) :=
  match Json.field? fields "kind", Json.field? fields "type" with
  | none, some v => fields ++ [("kind", v)]
  | _, _ => fields

/-- A documentation source. -/
def readSource : Json → Checked Docs.Source
  | .obj given =>
    let fields := withKind given
    let place := Checked.both Prod.mk (required readLabel fields "name")
      (required readLabel fields "url")
    let manner := Checked.both Prod.mk (optional readKind fields "kind" .annotated)
      (optional readFlag fields "enabled" true)
    .both (fun (name, url) (kind, enabled) => ⟨name, url, kind, enabled⟩) place manner
  | _ => .refuse .modelType

end LuaAudit
