import LuaAudit.Number.Binary64

/-!
# Shortest decimals

The fewest decimal digits that read back as a given binary number, and among those the decimal
nearest to it.

* `Span` is the interval of reals that round to a number;
* `shortest` finds the digits and their exponent.
-/

namespace LuaAudit.Number

/-- The reals that round to a binary number: `low * unit / scale` to `high * unit / scale` around
    `value * unit / scale`, the ends belonging to it when `closed`. -/
structure Span where
  low : Nat
  value : Nat
  high : Nat
  closed : Bool
  unit : Nat
  scale : Nat

/-- The reals that round to `mantissa * 2 ^ exponent`. -/
def Span.of (mantissa : Nat) (exponent : Int) : Span where
  low := if mantissa = Nat.pow 2 52 ∧ -1074 < exponent then 4 * mantissa - 1 else 4 * mantissa - 2
  value := 4 * mantissa
  high := 4 * mantissa + 2
  closed := mantissa % 2 = 0
  unit := Nat.pow 2 (exponent - 2).toNat
  scale := Nat.pow 2 (2 - exponent).toNat

/-- `10 ^ e` as a numerator and a denominator. -/
def powTen (e : Int) : Nat × Nat := (Nat.pow 10 e.toNat, Nat.pow 10 (-e).toNat)

/-- Whether `digits * 10 ^ e` lies in the interval. -/
def Span.contains (s : Span) (digits : Nat) (e : Int) : Bool :=
  let (p, q) := powTen e
  let x := digits * p * s.scale
  let lo := s.low * s.unit * q
  let hi := s.high * s.unit * q
  if s.closed then lo ≤ x && x ≤ hi else lo < x && x < hi

/-- The exponent of the leading decimal digit of the middle of the interval. -/
def Span.leading (s : Span) : Int :=
  let guess : Int := ((s.value * s.unit).log2 : Int) - s.scale.log2
  let guess := guess * 30103 / 100000
  let covers (e : Int) : Bool :=
    let (p, q) := powTen e
    p * s.scale ≤ s.value * s.unit * q && s.value * s.unit * q < 10 * p * s.scale
  ([guess - 1, guess, guess + 1, guess + 2].find? covers).getD guess

/-- The decimal with a given last place that is in the interval and nearest to its middle. -/
def Span.nearest? (s : Span) (e : Int) : Option Nat :=
  let (p, q) := powTen e
  let num := s.value * s.unit * q
  let den := p * s.scale
  let down := num / den
  let best := roundDiv num den
  let other := if best = down then down + 1 else down
  if s.contains best e then some best else if s.contains other e then some other else none

/-- Drops trailing zeros of a digit string, at most `fuel` of them. -/
def dropZeros : (fuel digits : Nat) → Int → Nat × Int
  | 0, digits, e => (digits, e)
  | fuel + 1, digits, e =>
    if digits % 10 = 0 ∧ digits ≠ 0 then dropZeros fuel (digits / 10) (e + 1) else (digits, e)

/-- The first of the precisions `17 - fuel, …, 17` that has a decimal in the interval. -/
def Span.search (s : Span) (leading : Int) : (fuel : Nat) → Nat × Int
  | 0 => ((s.nearest? (leading - 16)).getD 0, leading - 16)
  | fuel + 1 =>
    let e := leading - 16 + (fuel + 1 : Nat)
    match s.nearest? e with
    | some digits => (digits, e)
    | none => s.search leading fuel

/-- The shortest decimal `digits * 10 ^ e` that reads back as `mantissa * 2 ^ exponent`. -/
def shortest (mantissa : Nat) (exponent : Int) : Nat × Int :=
  let s := Span.of mantissa exponent
  let (digits, e) := s.search s.leading 16
  dropZeros 20 digits e

end LuaAudit.Number
