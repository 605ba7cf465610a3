import LuaAudit.Number.Real
import LuaAudit.OrderedMap

/-!
# JSON values

A JSON value.  Whole numbers and numbers with a fraction or exponent are kept apart, and an object
keeps its fields in order, each key once.

A text is a sequence of characters.  One that a data file spells with a surrogate that has no other
half is none: it is kept as a `ragged` value where any value can stand, and wherever a text is
needed, as for a key or a name, U+FFFD stands for each such surrogate.  Keys and names are assumed
to be whole in that sense: two of them that differ in such surrogates only are not told apart.

* `Point` is a character or such a surrogate, and `Json.ofPoints` the value of a sequence of them;
* `Json.object` builds an object from pairs of which a later one replaces an earlier one in place;
* `Json.get?` looks a field up;
* `Json.truthy` is false of null, false, zero, and empty texts, lists and objects.
-/

namespace LuaAudit

/-- A code point of a text: a character, or a surrogate without its other half. -/
inductive Point where
  | char (c : Char)
  | half (unit : Nat)
  deriving DecidableEq, Repr

/-- The character of a point, if it is one. -/
def Point.char? : Point → Option Char
  | .char c => some c
  | .half _ => none

/-- The surrogate of a point, if it is one. -/
def Point.half? : Point → Option Nat
  | .char _ => none
  | .half unit => some unit

/-- The character of a point; a surrogate is replaced. -/
def Point.toChar (p : Point) : Char := p.char?.getD (Char.ofNat 0xFFFD)

/-- A JSON value. -/
inductive Json where
  | null
  | bool (b : Bool)
  | int (n : Int)
  | real (x : Number.Real)
  | str (s : String)
  | ragged (points : List Point)
  | arr (items : List Json)
  | obj (fields : List (String × Json))
  deriving Repr, BEq

namespace Json

/-- The text of some points: a plain one, if all of them are characters. -/
def ofPoints (points : List Point) : Json :=
  if points.all (·.char?.isSome) then .str (String.ofList (points.filterMap Point.char?))
  else .ragged points

/-- An object from pairs: a later value of a key replaces an earlier one in its place. -/
def object (fields : List (String × Json)) : Json :=
  .obj (fields.foldl (fun es e => putEntry e.1 e.2 es) [])

/-- The value of a key in a list of fields. -/
def field? (fields : List (String × Json)) (key : String) : Option Json :=
  (fields.find? fun e => e.1 = key).map Prod.snd

/-- A field of an object. -/
def get? : Json → String → Option Json
  | .obj fields, key => field? fields key
  | _, _ => none

/-- Whether a value counts as present. -/
def truthy : Json → Bool
  | .null => false
  | .bool b => b
  | .int n => n ≠ 0
  | .real x => !x.isZero
  | .str s => !s.isEmpty
  | .ragged points => !points.isEmpty
  | .arr items => !items.isEmpty
  | .obj fields => !fields.isEmpty

end Json

end LuaAudit
