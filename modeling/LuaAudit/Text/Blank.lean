/-!
# White space

A blank is a white space character of Unicode together with the four information separators
U+001C to U+001F.  The zero-width space and the byte order mark are no blanks.

* `isBlank` decides the class;
* `trimStart`, `trimEnd` and `trim` drop blanks at the ends of a text.
-/

namespace LuaAudit.Text

/-- A white space character. -/
def isBlank (c : Char) : Bool :=
  let n := c.toNat
  (0x09 ≤ n && n ≤ 0x0D) || (0x1C ≤ n && n ≤ 0x20) || n == 0x85 || n == 0xA0 || n == 0x1680 ||
    (0x2000 ≤ n && n ≤ 0x200A) || n == 0x2028 || n == 0x2029 || n == 0x202F || n == 0x205F ||
    n == 0x3000

/-- The text without its leading blanks. -/
def trimStart (cs : List Char) : List Char := cs.dropWhile isBlank

/-- The text without its trailing blanks. -/
def trimEnd (cs : List Char) : List Char := (cs.reverse.dropWhile isBlank).reverse

/-- The text without the blanks at its ends. -/
def trim (cs : List Char) : List Char := trimEnd (trimStart cs)

/-- Every character of the text is a blank. -/
def allBlank (cs : List Char) : Bool := cs.all isBlank

end LuaAudit.Text
