import LuaAudit.Docs.Source
import LuaAudit.Text.Blank

/-!
# Function signatures

What is known of a documented function.  A description may be any value that a data file carries,
null when there is none.
-/

namespace LuaAudit.Docs

/-- The type of a parameter: a name, or not known. -/
inductive TypeRef where
  | unknown
  | known (name : String)
  deriving DecidableEq, Repr

/-- A type as written; one that is not known is `any`. -/
def TypeRef.text : TypeRef → String
  | .unknown => "any"
  | .known name => name

/-- Reads a type: blanks around it do not count, and nothing or `any` says nothing. -/
def TypeRef.parse (s : String) : TypeRef :=
  let name := String.ofList (Text.trim s.toList)
  if name = "" ∨ name = "any" then .unknown else .known name

/-- Reads a type from a data file. -/
def TypeRef.ofJson : Option Json → TypeRef
  | some (.str s) => .parse s
  | some (.ragged points) => .parse (String.ofList (points.map Point.toChar))
  | _ => .unknown

/-- A parameter of a function. -/
structure Parameter where
  name : String
  type : TypeRef := .unknown
  optional : Bool := false
  description : Json := .null
  deriving Repr, BEq

/-- A result of a function. -/
structure Return where
  type : String := "any"
  description : Json := .null
  deriving Repr, BEq

/-- A documented function and the source it comes from. -/
structure Signature where
  name : String
  source : String
  description : String := ""
  parameters : List Parameter := []
  returns : List Return := []
  examples : List String := []
  deriving Repr, BEq

end LuaAudit.Docs
