import LuaAudit.Lua.Bracket

/-!
# Masking comments and strings

`mask` blanks every character of a comment or a string literal of a Lua text and keeps the rest, so
that a search over the masked text finds code only.  Line feeds and carriage returns stay, so every
character keeps its line and column.

A text is read left to right in one of four regions: code, a line comment (to the line feed), a long
bracket (a block comment or a long string, to the first closer of its level) and a quoted string (to
the first quote that no backslash escapes; line ends do not close it).
-/

namespace LuaAudit.Lua

/-- What the reader of a Lua text stands in. -/
inductive Region where
  | code
  | lineComment
  | long (level : Nat)
  | quoted (quote : Char)
  deriving DecidableEq, Repr

/-- A character of a comment or string after masking: line ends stay, all else becomes a space. -/
def maskChar (c : Char) : Char := if c == '\r' || c == '\n' then c else ' '

/-- `n` spaces. -/
def spaces (n : Nat) : List Char := List.replicate n ' '

/-- A quote that delimits a short string. -/
def isQuote (c : Char) : Bool := c == '\'' || c == '"'

/-- The masked form of a text that starts in a region. -/
def maskFrom : Region → List Char → List Char
  | _, [] => []
  | .lineComment, c :: cs =>
    if c == '\n' then c :: maskFrom .code cs else maskChar c :: maskFrom .lineComment cs
  | .long level, c :: cs =>
    if Bracket.closeLevel? (c :: cs) = some level then
      spaces (Bracket.length level) ++ maskFrom .code (cs.drop (level + 1))
    else maskChar c :: maskFrom (.long level) cs
  | .quoted q, '\\' :: e :: cs => ' ' :: maskChar e :: maskFrom (.quoted q) cs
  | .quoted q, c :: cs =>
    maskChar c :: maskFrom (if c == q then .code else .quoted q) cs
  | .code, '-' :: '-' :: cs =>
    match Bracket.openLevel? cs with
    | some level =>
      spaces (2 + Bracket.length level) ++ maskFrom (.long level) (cs.drop (Bracket.length level))
    | none => spaces 2 ++ maskFrom .lineComment cs
  | .code, c :: cs =>
    match Bracket.openLevel? (c :: cs) with
    | some level => spaces (Bracket.length level) ++ maskFrom (.long level) (cs.drop (level + 1))
    | none => if isQuote c then ' ' :: maskFrom (.quoted c) cs else c :: maskFrom .code cs
  termination_by _ cs => cs.length
  decreasing_by all_goals simp_wf; all_goals omega

/-- A Lua text with its comments and strings blanked. -/
def mask (cs : List Char) : List Char := maskFrom .code cs

end LuaAudit.Lua
