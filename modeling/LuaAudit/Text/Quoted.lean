import LuaAudit.Text.Hex
import LuaAudit.Text.Printable

/-!
# Quoted text

How messages show a text that may hold anything: in single quotes, or in double quotes when it has
a single quote and no double one.  The backslash, the quote in use and the line, tab and return
controls have two-character escapes; any other character that is not printable is written by its
code point.
-/

namespace LuaAudit.Text.Quoted

/-- One character between the quotes. -/
def escapeChar (quote c : Char) : List Char :=
  if c == quote || c == '\\' then ['\\', c]
  else if c == '\n' then ['\\', 'n']
  else if c == '\r' then ['\\', 'r']
  else if c == '\t' then ['\\', 't']
  else if isPrintable c then [c]
  else if c.toNat < 0x100 then '\\' :: 'x' :: hexDigits 2 c.toNat
  else if c.toNat < 0x10000 then '\\' :: 'u' :: hexDigits 4 c.toNat
  else '\\' :: 'U' :: hexDigits 8 c.toNat

/-- The quote that surrounds a text. -/
def quoteFor (cs : List Char) : Char :=
  if cs.contains '\'' && !cs.contains '"' then '"' else '\''

/-- A text in quotes. -/
def encode (cs : List Char) : List Char :=
  quoteFor cs :: cs.flatMap (escapeChar (quoteFor cs)) ++ [quoteFor cs]

end LuaAudit.Text.Quoted

namespace LuaAudit.Text

/-- A text in quotes, as messages show it. -/
def quote (s : String) : String := String.ofList (Quoted.encode s.toList)

end LuaAudit.Text
