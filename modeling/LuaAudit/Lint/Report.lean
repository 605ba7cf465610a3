import LuaAudit.Json.Value
import LuaAudit.Lint.Diagnostic

/-!
# Diagnostics as records
-/

namespace LuaAudit.Lint

/-- A position as a record. -/
def Position.toJson (p : Position) : Json :=
  .obj [("line", .int p.line), ("character", .int p.character)]

/-- A diagnostic as a record. -/
def Diagnostic.toJson (d : Diagnostic) : Json :=
  .obj [
    ("range", .obj [("start", d.range.start.toJson), ("end", d.range.stop.toJson)]),
    ("message", .str d.message),
    ("severity", .str d.severity.name),
    ("code", .str d.code),
    ("source", .str Diagnostic.source)]

end LuaAudit.Lint
