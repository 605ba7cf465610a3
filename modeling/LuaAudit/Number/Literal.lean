import LuaAudit.Number.Real
import LuaAudit.Text.Blank

/-!
# Numbers written by people

Texts of settings that stand for numbers: a sign, digits with single underscores between them, and
for reals a point and an exponent.

* `integer?` reads a signed whole number in the digits of a given script;
* `real?` reads a real number;
* `maxDigits` bounds the digits of a whole number.
-/

namespace LuaAudit.Number

/-- The most digits that a whole number may be written with. -/
def maxDigits : Nat := 4300

/-- The wording about a whole number of too many digits. -/
def tooManyDigits (digits : Nat) : String :=
  "Exceeds the limit (" ++ toString maxDigits ++
    " digits) for integer string conversion: value has " ++ toString digits ++
    " digits; use sys.set_int_max_str_digits() to increase the limit"

/-- The value of an ASCII digit. -/
def asciiDigit? (c : Char) : Option Nat := if c.isDigit then some (c.toNat - 48) else none

/-- The value of digits that follow a digit, single underscores between them allowed. -/
def moreDigits? (digit : Char → Option Nat) (n : Nat) : List Char → Option Nat
  | [] => some n
  | '_' :: c :: cs => (digit c).bind fun d => moreDigits? digit (10 * n + d) cs
  | c :: cs => (digit c).bind fun d => moreDigits? digit (10 * n + d) cs

/-- The value of at least one digit. -/
def natural? (digit : Char → Option Nat) : List Char → Option Nat
  | [] => none
  | c :: cs => (digit c).bind fun d => moreDigits? digit d cs

/-- The value of an optional sign and digits. -/
def integer? (digit : Char → Option Nat) : List Char → Option Int
  | '-' :: cs => (natural? digit cs).map fun n => -(n : Int)
  | '+' :: cs => (natural? digit cs).map fun n => (n : Int)
  | cs => (natural? digit cs).map fun n => (n : Int)

/-- Digits before and after an optional point, and what follows; there is at least one digit. -/
def mantissa? (cs : List Char) : Option (Nat × Int × List Char) :=
  let whole := cs.takeWhile Char.isDigit
  let rest := cs.dropWhile Char.isDigit
  let value (ds : List Char) : Nat := ds.foldl (fun n d => 10 * n + (d.toNat - 48)) 0
  match rest with
  | '.' :: tail =>
    let fraction := tail.takeWhile Char.isDigit
    if whole.isEmpty && fraction.isEmpty then none
    else some (value (whole ++ fraction), -(fraction.length : Int), tail.dropWhile Char.isDigit)
  | _ => if whole.isEmpty then none else some (value whole, 0, rest)

/-- An exponent to the end of a text; none at all counts as zero. -/
def exponent? : List Char → Option Int
  | [] => some 0
  | c :: cs => if (c == 'e' || c == 'E') && !cs.contains '_' then integer? asciiDigit? cs else none

/-- A real number without its sign. -/
def magnitude? (negative : Bool) (cs : List Char) : Option Real :=
  let word := String.ofList (cs.map Char.toLower)
  if word == "inf" || word == "infinity" then some (.infinite negative)
  else if word == "nan" then some .nan
  else do
    let (digits, places, rest) ← mantissa? cs
    let e ← exponent? rest
    return .ofDecimal negative digits (places + e)

/-- A text without its underscores, if they stand singly and not at an end. -/
def dropUnderscores? (cs : List Char) : Option (List Char) :=
  let doubled := (cs.zip (cs.drop 1)).any fun p => p.1 == '_' && p.2 == '_'
  if cs.head? == some '_' || cs.getLast? == some '_' || doubled then none
  else some (cs.filter (· != '_'))

/-- A real number, blanks around it dropped. -/
def real? (cs : List Char) : Option Real :=
  match dropUnderscores? (Text.trim cs) with
  | none => none
  | some ('-' :: rest) => magnitude? true rest
  | some ('+' :: rest) => magnitude? false rest
  | some rest => magnitude? false rest

end LuaAudit.Number
