/-!
# Binary floating point

A finite number of the 64-bit binary format is a whole number of at most 53 bits times a power of
two whose exponent lies between -1074 and 971.

* `Binary64.ofRatio` is the number nearest to a positive fraction, a tie going to the even mantissa;
* `Binary64.ofDecimal` is the number nearest to a decimal.
-/

namespace LuaAudit.Number

/-- A magnitude of the 64-bit format: zero, `mantissa * 2 ^ exponent`, or too large. -/
inductive Binary64 where
  | zero
  | finite (mantissa : Nat) (exponent : Int)
  | infinite
  deriving DecidableEq, Repr

/-- The whole number nearest to `num / den`, a tie going to the even one. -/
def roundDiv (num den : Nat) : Nat :=
  let q := num / den
  let r := num % den
  if 2 * r < den then q else if den < 2 * r then q + 1 else q + q % 2

/-- `num / den` scaled by `2 ^ -exponent`, as a numerator and a denominator. -/
def scaleTwo (num den : Nat) (exponent : Int) : Nat × Nat :=
  if 0 ≤ exponent then (num, den * Nat.pow 2 exponent.toNat)
  else (num * Nat.pow 2 (-exponent).toNat, den)

/-- The exponent that gives a positive fraction its full 53 bits, as far as the format goes. -/
def exponentFor (num den : Nat) : Int :=
  let guess : Int := (num.log2 : Int) - den.log2 - 53
  let (n, d) := scaleTwo num den guess
  max (if n / d < Nat.pow 2 53 then guess else guess + 1) (-1074)

/-- The number nearest to a positive fraction. -/
def Binary64.ofRatio (num den : Nat) : Binary64 :=
  let e := exponentFor num den
  let (n, d) := scaleTwo num den e
  let m := roundDiv n d
  let (m, e) := if m = Nat.pow 2 53 then (Nat.pow 2 52, e + 1) else (m, e)
  if m = 0 then .zero else if 971 < e then .infinite else .finite m e

/-- How many decimal digits a number has. -/
def digitCount (n : Nat) : Nat := (Nat.toDigits 10 n).length

/-- The number nearest to `digits * 10 ^ exponent`. -/
def Binary64.ofDecimal (digits : Nat) (exponent : Int) : Binary64 :=
  if digits = 0 then .zero
  else
    let magnitude := (digitCount digits : Int) + exponent
    if 310 < magnitude then .infinite
    else if magnitude < -330 then .zero
    else if 0 ≤ exponent then .ofRatio (digits * Nat.pow 10 exponent.toNat) 1
    else .ofRatio digits (Nat.pow 10 (-exponent).toNat)

end LuaAudit.Number
