import LuaAudit.Text.Hex

/-!
# UTF-8

* `encode` writes a text as bytes;
* `decode?` reads bytes that are well formed;
* `decodeLossy` reads any bytes, with one replacement character for each longest stretch that starts
  a character and cannot be completed;
* `decode` reads bytes that are well formed, and says of others where they go wrong.
-/

namespace LuaAudit.Text.Utf8

/-- The bytes of a character. -/
def encodeChar (c : Char) : List UInt8 :=
  let n := c.toNat
  if n < 0x80 then [n.toUInt8]
  else if n < 0x800 then [(0xC0 + n / 0x40).toUInt8, (0x80 + n % 0x40).toUInt8]
  else if n < 0x10000 then
    [(0xE0 + n / 0x1000).toUInt8, (0x80 + n / 0x40 % 0x40).toUInt8, (0x80 + n % 0x40).toUInt8]
  else
    [(0xF0 + n / 0x40000).toUInt8, (0x80 + n / 0x1000 % 0x40).toUInt8,
      (0x80 + n / 0x40 % 0x40).toUInt8, (0x80 + n % 0x40).toUInt8]

/-- The bytes of a text. -/
def encode (cs : List Char) : List UInt8 := cs.flatMap encodeChar

/-- What a lead byte announces: how many bytes follow, the bounds of the first of them, and the part
    of the code point that the lead byte carries. -/
structure Lead where
  tails : Nat
  low : Nat
  high : Nat
  bits : Nat

/-- The announcement of a lead byte, if it can start a character of several bytes. -/
def lead? (b : Nat) : Option Lead :=
  if 0xC2 ≤ b && b ≤ 0xDF then some ⟨1, 0x80, 0xBF, b - 0xC0⟩
  else if b == 0xE0 then some ⟨2, 0xA0, 0xBF, 0⟩
  else if b == 0xED then some ⟨2, 0x80, 0x9F, 0xD⟩
  else if 0xE1 ≤ b && b ≤ 0xEF then some ⟨2, 0x80, 0xBF, b - 0xE0⟩
  else if b == 0xF0 then some ⟨3, 0x90, 0xBF, 0⟩
  else if 0xF1 ≤ b && b ≤ 0xF3 then some ⟨3, 0x80, 0xBF, b - 0xF0⟩
  else if b == 0xF4 then some ⟨3, 0x80, 0x8F, 4⟩
  else none

/-- Reads up to `tails` bytes, the first of them between `low` and `high` and the others any
    continuation byte: the code point, or `none` when they break off, and how many were taken. -/
def readTails : (tails low high bits taken : Nat) → List UInt8 → Option Nat × Nat
  | 0, _, _, bits, taken, _ => (some bits, taken)
  | _ + 1, _, _, _, taken, [] => (none, taken)
  | tails + 1, low, high, bits, taken, b :: bs =>
    if low ≤ b.toNat && b.toNat ≤ high then
      readTails tails 0x80 0xBF (bits * 0x40 + (b.toNat - 0x80)) (taken + 1) bs
    else (none, taken)

/-- The character that starts with a byte, or `none` when there is none, and how many of the
    following bytes belong to the stretch. -/
def readChar (b : UInt8) (bs : List UInt8) : Option Char × Nat :=
  if b.toNat < 0x80 then (some (Char.ofNat b.toNat), 0)
  else match lead? b.toNat with
    | none => (none, 0)
    | some l =>
      match readTails l.tails l.low l.high l.bits 0 bs with
      | (some n, taken) => (some (Char.ofNat n), taken)
      | (none, taken) => (none, taken)

/-- The characters of the bytes after the first `skip`, with `none` for an ill-formed stretch. -/
def decodeFrom : (skip : Nat) → List UInt8 → List (Option Char)
  | _, [] => []
  | skip + 1, _ :: bs => decodeFrom skip bs
  | 0, b :: bs => (readChar b bs).1 :: decodeFrom (readChar b bs).2 bs

/-- The text of well-formed bytes. -/
def decode? (bs : List UInt8) : Option (List Char) := (decodeFrom 0 bs).mapM id

/-- The replacement character. -/
def replacement : Char := Char.ofNat 0xFFFD

/-- The text of any bytes, ill-formed stretches replaced. -/
def decodeLossy (bs : List UInt8) : List Char := (decodeFrom 0 bs).map (·.getD replacement)

/-! ### Ill-formed bytes -/

/-- Why a stretch of bytes is no character. -/
inductive Flaw where
  | start
  | continuation
  | unfinished
  deriving DecidableEq, Repr

/-- The wording of a flaw. -/
def Flaw.text : Flaw → String
  | .start => "invalid start byte"
  | .continuation => "invalid continuation byte"
  | .unfinished => "unexpected end of data"

/-- A stretch that is no character: where it starts, its first byte, how many bytes follow in it,
    and what is wrong with it. -/
structure Fault where
  offset : Nat
  first : UInt8
  more : Nat
  flaw : Flaw
  deriving DecidableEq, Repr

/-- The wording of a fault: a single byte is shown, of several only the place is given. -/
def Fault.message (f : Fault) : String :=
  let place :=
    if f.more = 0 then
      "byte 0x" ++ String.ofList (hexDigits 2 f.first.toNat) ++ " in position " ++ toString f.offset
    else "bytes in position " ++ toString f.offset ++ "-" ++ toString (f.offset + f.more)
  "'utf-8' codec can't decode " ++ place ++ ": " ++ f.flaw.text

/-- What is wrong with a byte that starts no character, given the bytes after it. -/
def flawOf (b : UInt8) (bs : List UInt8) : Flaw :=
  if (lead? b.toNat).isNone then .start
  else if (readChar b bs).2 = bs.length then .unfinished
  else .continuation

/-- The first ill-formed stretch of the bytes after the first `skip`, which start at `offset`. -/
def faultFrom : (skip offset : Nat) → List UInt8 → Option Fault
  | _, _, [] => none
  | skip + 1, offset, _ :: bs => faultFrom skip (offset + 1) bs
  | 0, offset, b :: bs =>
    match readChar b bs with
    | (some _, taken) => faultFrom taken (offset + 1) bs
    | (none, taken) => some ⟨offset, b, taken, flawOf b bs⟩

/-- The text of well-formed bytes, or the first stretch that is no character. -/
def decode (bs : List UInt8) : Except Fault (List Char) :=
  match faultFrom 0 0 bs with
  | some fault => .error fault
  | none => .ok (decodeLossy bs)

end LuaAudit.Text.Utf8
