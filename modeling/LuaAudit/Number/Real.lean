import LuaAudit.Number.Shortest

/-!
# Real numbers of data files

A `Real` is a number of the 64-bit binary format, held by its shortest decimal, which determines it.

* `Real.ofDecimal` rounds a decimal to the format;
* `Real.toRat?` is the value of a number;
* `Real.text` writes a number: positional from 0.0001 up to below 10 ^ 16, with an exponent
  elsewhere.
-/

namespace LuaAudit.Number

/-- A signed number by its shortest decimal `digits * 10 ^ exponent`, an infinity, or no number. -/
inductive Real where
  | finite (negative : Bool) (digits : Nat) (exponent : Int)
  | infinite (negative : Bool)
  | nan
  deriving DecidableEq, Repr

/-- The binary number nearest to a decimal. -/
def Real.ofDecimal (negative : Bool) (digits : Nat) (exponent : Int) : Real :=
  match Binary64.ofDecimal digits exponent with
  | .zero => .finite negative 0 0
  | .infinite => .infinite negative
  | .finite m e =>
    let (digits, exponent) := shortest m e
    .finite negative digits exponent

/-- The number nearest to an integer. -/
def Real.ofInt (n : Int) : Real := .ofDecimal (n < 0) n.natAbs 0

/-- Whether a number is zero, of either sign. -/
def Real.isZero : Real → Bool
  | .finite _ digits _ => digits == 0
  | _ => false

/-- The integer that a number is, if it is one. -/
def Real.toInt? : Real → Option Int
  | .finite negative digits exponent =>
    let signed (n : Nat) : Int := if negative then -(n : Int) else n
    if digits = 0 then some 0
    else if 0 ≤ exponent then some (signed (digits * Nat.pow 10 exponent.toNat))
    else if digits % Nat.pow 10 (-exponent).toNat = 0 then
      some (signed (digits / Nat.pow 10 (-exponent).toNat))
    else none
  | _ => none

/-- The value of a number; an infinity has none. -/
def Real.toRat? : Real → Option Rat
  | .finite negative digits exponent =>
    let signed : Int := if negative then -(digits : Int) else digits
    if 0 ≤ exponent then some (mkRat (signed * Nat.pow 10 exponent.toNat) 1)
    else some (mkRat signed (Nat.pow 10 (-exponent).toNat))
  | _ => none

/-- Decimal digits of a number, as characters. -/
def decimal (n : Nat) : List Char := Nat.toDigits 10 n

/-- `n` zeros. -/
def zeros (n : Nat) : List Char := List.replicate n '0'

/-- The decimal `digits * 10 ^ exponent` in positional form, with at least one place. -/
def positional (digits : Nat) (exponent : Int) : List Char :=
  let ds := decimal digits
  if 0 ≤ exponent then ds ++ zeros exponent.toNat ++ ['.', '0']
  else
    let places := (-exponent).toNat
    if places < ds.length then ds.take (ds.length - places) ++ '.' :: ds.drop (ds.length - places)
    else '0' :: '.' :: zeros (places - ds.length) ++ ds

/-- The decimal `digits * 10 ^ exponent` with one digit before the point and an exponent of at least
    two digits. -/
def scientific (digits : Nat) (exponent : Int) : List Char :=
  let ds := decimal digits
  let x : Int := exponent + ds.length - 1
  let mantissa := match ds with
    | [] => []
    | [d] => [d]
    | d :: rest => d :: '.' :: rest
  let xs := decimal x.natAbs
  mantissa ++ 'e' :: (if x < 0 then '-' else '+') :: zeros (2 - xs.length) ++ xs

/-- The magnitude `digits * 10 ^ exponent` as written. -/
def magnitude (digits : Nat) (exponent : Int) : List Char :=
  if digits = 0 then ['0', '.', '0']
  else
    let x : Int := exponent + (decimal digits).length - 1
    if -4 ≤ x ∧ x < 16 then positional digits exponent else scientific digits exponent

/-- A number as messages show it. -/
def Real.text : Real → String
  | .finite negative digits exponent =>
    (if negative then "-" else "") ++ String.ofList (magnitude digits exponent)
  | .infinite false => "inf"
  | .infinite true => "-inf"
  | .nan => "nan"

end LuaAudit.Number
