import LuaAudit.Lua.Mask
import LuaAudit.Text.Line

/-!
# Scripts

A `Script` is a Lua text cut into lines, once as written and once masked.  Both views have the same
lines and columns, so what is found in the masked lines can be reported in the written ones.

* `Script.ofText` builds both views;
* `Script.isCodeAt` tells whether a place holds code.
-/

namespace LuaAudit.Lint

/-- A place that a script does not have. -/
inductive PlaceError where
  | noLine
  | noColumn
  deriving DecidableEq, Repr

/-- The wording of a missing place. -/
def PlaceError.message : PlaceError → String
  | .noLine => "list index out of range"
  | .noColumn => "string index out of range"

/-- The member of a list at a place, where a place below zero counts back from the end. -/
def atPlace? {α : Type} (xs : List α) (i : Int) : Option α :=
  if 0 ≤ i then xs[i.toNat]?
  else if (-i).toNat ≤ xs.length then xs[xs.length - (-i).toNat]?
  else none

/-- The written and the masked lines of a Lua text. -/
structure Script where
  lines : List (List Char)
  masked : List (List Char)
  deriving DecidableEq, Repr

/-- Both views of a text. -/
def Script.ofText (text : List Char) : Script :=
  ⟨Text.splitLines text, Text.splitLines (Lua.mask text)⟩

/-- Whether the character at a line and column is code: no space, and not blanked by masking.  A
    column past the end of its line holds no code. -/
def Script.isCodeAt (s : Script) (line column : Int) : Except PlaceError Bool :=
  match atPlace? s.lines line with
  | none => .error .noLine
  | some raw =>
    if (raw.length : Int) ≤ column then .ok false
    else match atPlace? raw column with
      | none => .error .noColumn
      | some c =>
        if c == ' ' then .ok false
        else match atPlace? s.masked line with
          | none => .error .noLine
          | some masked =>
            match atPlace? masked column with
            | none => .error .noColumn
            | some m => .ok (m == c)

end LuaAudit.Lint
