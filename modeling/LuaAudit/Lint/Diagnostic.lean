/-!
# Diagnostics

What a pass reports: a place in the script, a message, a severity and a code that names the finding.
-/

namespace LuaAudit.Lint

/-- How serious a finding is. -/
inductive Severity where
  | error
  | warning
  | information
  | hint
  deriving DecidableEq, Repr

/-- The name of a severity in reports. -/
def Severity.name : Severity → String
  | .error => "error"
  | .warning => "warning"
  | .information => "information"
  | .hint => "hint"

/-- A line and a column, both counted from zero. -/
structure Position where
  line : Nat
  character : Nat
  deriving DecidableEq, Repr

/-- The characters from `start` up to, not including, `stop`. -/
structure Range where
  start : Position
  stop : Position
  deriving DecidableEq, Repr

/-- The columns `first, …, last - 1` of a line. -/
def Range.onLine (line first last : Nat) : Range := ⟨⟨line, first⟩, ⟨line, last⟩⟩

/-- One finding. -/
structure Diagnostic where
  range : Range
  message : String
  severity : Severity
  code : String
  deriving DecidableEq, Repr

/-- Every diagnostic names the linter as its source. -/
def Diagnostic.source : String := "lua-lint"

end LuaAudit.Lint
