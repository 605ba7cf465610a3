/-!
# Long brackets

A long bracket of level `n` opens with `[`, `n` equals signs and `[`, and closes with `]`, `n`
equals signs and `]`.

* `openLevel?` reads an opener at the start of a text;
* `closeLevel?` reads a closer at the start of a text;
* `length` is the number of characters of either;
* `openAt?` and `closeAt` look for them at an offset of a text.
-/

namespace LuaAudit.Lua.Bracket

/-- The number of equals signs before `last`, counted from `level`, when a text is such a run. -/
def levelBefore? (last : Char) (level : Nat) : List Char → Option Nat
  | [] => none
  | c :: cs =>
    if c == '=' then levelBefore? last (level + 1) cs
    else if c == last then some level
    else none

/-- The level of the long bracket that opens at the start of a text. -/
def openLevel? : List Char → Option Nat
  | '[' :: cs => levelBefore? '[' 0 cs
  | _ => none

/-- The level of the long bracket that closes at the start of a text. -/
def closeLevel? : List Char → Option Nat
  | ']' :: cs => levelBefore? ']' 0 cs
  | _ => none

/-- An opener or closer has its two brackets and the equals signs between them. -/
def length (level : Nat) : Nat := level + 2

/-- The length and the level of the opener at an offset of a text. -/
def openAt? (cs : List Char) (offset : Nat) : Option (Nat × Nat) :=
  (openLevel? (cs.drop offset)).map fun level => (length level, level)

/-- How many equals signs a text starts with, counted no further than `most`. -/
def signs : (most : Nat) → List Char → Nat
  | most + 1, '=' :: cs => signs most cs + 1
  | _, _ => 0

/-- The length of the closer of a level at the start of a text, when at most `most` equals signs are
    counted, or zero when there is none. -/
def closeWithin (most : Nat) (level : Int) : List Char → Nat
  | ']' :: cs =>
    let run := signs most cs
    if (run : Int) = level ∧ (cs.drop run).head? = some ']' then length run else 0
  | _ => 0

/-- The length of the closer at an offset of a text, or zero when no bracket of this level closes
    there.  One equals sign beyond the level is counted, which tells a longer run. -/
def closeAt (cs : List Char) (offset : Nat) (level : Int) : Nat :=
  closeWithin (level + 1).toNat level (cs.drop offset)

end LuaAudit.Lua.Bracket
