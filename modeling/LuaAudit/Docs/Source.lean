import LuaAudit.Docs.Kind
import LuaAudit.Json.Value

/-!
# Documentation sources

A named place to take function signatures from.
-/

namespace LuaAudit.Docs

/-- A named place with documentation. -/
structure Source where
  name : String
  url : String
  kind : Kind := .annotated
  enabled : Bool := true
  deriving DecidableEq, Repr

/-- A source as a record. -/
def Source.toJson (s : Source) : Json :=
  .obj [("name", .str s.name), ("url", .str s.url), ("kind", .str s.kind.name),
    ("enabled", .bool s.enabled)]

end LuaAudit.Docs
