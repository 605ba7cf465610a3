import LuaAudit.Text.Blank
import LuaAudit.Text.Case
import LuaAudit.Text.Quoted

/-!
# Kinds of documentation

How the content of a documentation source is read.  A kind is named by a text, in any case and with
blanks around it; four older names are still understood.
-/

namespace LuaAudit.Docs

/-- How a documentation source is read. -/
inductive Kind where
  | annotated
  | plain
  | hybrid
  | catalog
  deriving DecidableEq, Repr

/-- The name of a kind. -/
def Kind.name : Kind → String
  | .annotated => "annotated-definitions"
  | .plain => "plain-functions"
  | .hybrid => "hybrid"
  | .catalog => "json-native-catalog"

/-- The kinds by name, older names first. -/
def Kind.names : List (String × Kind) := [
  ("lua_types", .annotated), ("lua_functions", .plain), ("lua_mixed", .hybrid),
  ("natives", .catalog), (Kind.annotated.name, .annotated), (Kind.plain.name, .plain),
  (Kind.hybrid.name, .hybrid), (Kind.catalog.name, .catalog)]

/-- A text that names no kind. -/
structure UnknownKind where
  key : String
  deriving DecidableEq, Repr

/-- The wording of an unknown kind. -/
def UnknownKind.message (e : UnknownKind) : String :=
  Text.quote e.key ++ " is not a valid SourceKind"

/-- The kind that a text names. -/
def Kind.parse (s : String) : Except UnknownKind Kind :=
  let key := String.ofList (Text.toLower (Text.trim s.toList))
  match Kind.names.lookup key with
  | some kind => .ok kind
  | none => .error ⟨key⟩

end LuaAudit.Docs
