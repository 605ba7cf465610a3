import LuaAudit.Text.Hex
import LuaAudit.Text.Utf8

/-!
# Percent encoding

Bytes outside a safe set are written as a percent sign and two hexadecimal digits.

* `encode` writes a text by its UTF-8 bytes;
* `decode` reads one: an escape that is no escape stays as it is, and ill-formed bytes are replaced.
-/

namespace LuaAudit.Location.Percent

/-- The characters that a path may hold as they are. -/
def isPathSafe (c : Char) : Bool := c.isAlphanum || ['_', '.', '-', '~', '/'].contains c

/-- A byte as an escape, in upper case. -/
def escapeByte (b : UInt8) : List Char := '%' :: (Text.hexDigits 2 b.toNat).map Char.toUpper

/-- A character, escaped unless it is safe. -/
def encodeChar (safe : Char → Bool) (c : Char) : List Char :=
  if safe c then [c] else (Text.Utf8.encodeChar c).flatMap escapeByte

/-- A text with every character escaped that is not safe. -/
def encode (safe : Char → Bool) (cs : List Char) : List Char := cs.flatMap (encodeChar safe)

/-- The bytes that a run of ASCII characters writes. -/
def bytesOf : List Char → List UInt8
  | [] => []
  | '%' :: a :: b :: cs =>
    match Text.hexValue? a, Text.hexValue? b with
    | some x, some y => (16 * x + y).toUInt8 :: bytesOf cs
    | _, _ => 0x25 :: bytesOf (a :: b :: cs)
  | c :: cs => c.toNat.toUInt8 :: bytesOf cs
  termination_by cs => cs.length

/-- Reads a text; `run` holds the ASCII characters since the last other one, in reverse. -/
def decodeFrom (run : List Char) : List Char → List Char
  | [] => Text.Utf8.decodeLossy (bytesOf run.reverse)
  | c :: cs =>
    if c.toNat < 128 then decodeFrom (c :: run) cs
    else Text.Utf8.decodeLossy (bytesOf run.reverse) ++ c :: decodeFrom [] cs

/-- The text that escapes write. -/
def decode (cs : List Char) : List Char := decodeFrom [] cs

end LuaAudit.Location.Percent
