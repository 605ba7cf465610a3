import LuaAudit.Text.Search

/-!
# Nesting depth

Two approximate depths, kept line by line over trimmed masked lines.  Neither falls below zero.
-/

namespace LuaAudit.Lint

/-- The depth of table braces after a line. -/
def tableDepth (depth : Nat) (line : List Char) : Nat :=
  depth + line.count '\x7b' - line.count '\x7d'

/-- The depth of function bodies after a line: a line with `function` and without `end` opens one,
    a line with `end` and without `function` closes one. -/
def functionDepth (depth : Nat) (line : List Char) : Nat :=
  match Text.containsText "function".toList line, Text.containsText "end".toList line with
  | true, false => depth + 1
  | false, true => depth - 1
  | _, _ => depth

end LuaAudit.Lint
