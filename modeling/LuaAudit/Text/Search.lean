/-!
# Searching a text

A `Recogniser` looks at one place of a text, knowing the character before it and all that follows,
and either refuses or tells what it found there and how many characters that takes.

* `occurrences` walks a text from left to right and collects what a recogniser finds, continuing
  after each find, so that finds never overlap;
* `first?` is the leftmost find;
* `containsText` asks whether one text occurs in another.
-/

namespace LuaAudit.Text

/-- Something found at the characters `start, …, stop - 1` of a text. -/
structure Occurrence (α : Type) where
  start : Nat
  stop : Nat
  value : α
  deriving Repr, DecidableEq

/-- From the character before a place and the text from there on, what stands at that place and its
    length, which is positive. -/
abbrev Recogniser (α : Type) := Option Char → List Char → Option (α × Nat)

/-- The finds of a recogniser in the text from `offset` on, whose first `skip` characters belong to
    an earlier find. -/
def occurrencesFrom {α : Type} (find : Recogniser α) :
    (skip offset : Nat) → (before : Option Char) → List Char → List (Occurrence α)
  | _, _, _, [] => []
  | skip + 1, offset, _, c :: cs => occurrencesFrom find skip (offset + 1) (some c) cs
  | 0, offset, before, c :: cs =>
    match find before (c :: cs) with
    | some (value, length) =>
      ⟨offset, offset + length, value⟩ ::
        occurrencesFrom find (length - 1) (offset + 1) (some c) cs
    | none => occurrencesFrom find 0 (offset + 1) (some c) cs

/-- The leftmost finds of a recogniser that do not overlap, in order. -/
def occurrences {α : Type} (find : Recogniser α) (cs : List Char) : List (Occurrence α) :=
  occurrencesFrom find 0 0 none cs

/-- The leftmost find of a recogniser. -/
def first? {α : Type} (find : Recogniser α) (cs : List Char) : Option (Occurrence α) :=
  (occurrences find cs).head?

/-- Whether `needle` occurs in a text. -/
def containsText (needle : List Char) : List Char → Bool
  | [] => needle.isEmpty
  | c :: cs => needle.isPrefixOf (c :: cs) || containsText needle cs

/-- What follows `lead` at the start of a text. -/
def after? : (lead : List Char) → List Char → Option (List Char)
  | [], cs => some cs
  | _ :: _, [] => none
  | l :: ls, c :: cs => if l == c then after? ls cs else none

/-- How many leading characters have a property. -/
def countWhile (p : Char → Bool) (cs : List Char) : Nat := (cs.takeWhile p).length

end LuaAudit.Text
