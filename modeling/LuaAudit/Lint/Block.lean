import LuaAudit.Lint.Script
import LuaAudit.Text.Blank
import LuaAudit.Text.Search

/-!
# Blocks

Where a block ends is found by counting lines, not by parsing: after the opening line, a line that
contains the opening keyword anywhere opens one more block and a line that contains the closing
keyword anywhere closes one.

* `closing?` counts through the lines after the opener;
* `blockEnd?` is the index of the closing line of the block opened at a line;
* `blockEndFrom` also takes a place that counts back from the end of the lines.
-/

namespace LuaAudit.Lint

/-- The words whose lines open and close a block. -/
structure BlockWords where
  opening : List Char
  closing : List Char

/-- With `depth` blocks open, how many lines stand before the one that closes the last of them. -/
def BlockWords.closing? (words : BlockWords) : (depth : Nat) → List (List Char) → Option Nat
  | _, [] => none
  | depth, line :: lines =>
    let text := Text.trim line
    let opened := if Text.containsText words.opening text then depth + 1 else depth
    if text.isEmpty then (words.closing? depth lines).map (· + 1)
    else if Text.containsText words.closing text then
      if opened = 1 then some 0 else (words.closing? (opened - 1) lines).map (· + 1)
    else (words.closing? opened lines).map (· + 1)

/-- The index of the line that closes the block opened at line `start`. -/
def blockEnd? (words : BlockWords) (lines : List (List Char)) (start : Nat) : Option Nat :=
  (words.closing? 1 (lines.drop (start + 1))).map (start + 1 + ·)

/-- The lines from place `i` on; from a place below zero, first those counted back from the end and
    then all of them. -/
def linesFrom (lines : List (List Char)) (i : Int) : Except PlaceError (List (List Char)) :=
  if 0 ≤ i then .ok (lines.drop i.toNat)
  else if (-i).toNat ≤ lines.length then .ok (lines.drop (lines.length - (-i).toNat) ++ lines)
  else .error .noLine

/-- The place of the line that closes the block opened at a place. -/
def blockEndFrom (words : BlockWords) (lines : List (List Char)) (start : Int) :
    Except PlaceError (Option Int) := do
  let rest ← linesFrom lines (start + 1)
  return (words.closing? 1 rest).map fun n => start + 1 + n

end LuaAudit.Lint
