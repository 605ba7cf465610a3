import LuaAudit.Text.Search

/-!
# Names

A Lua name is an ASCII letter or underscore followed by ASCII letters, digits and underscores; a
dotted name may also hold dots after its first character.
-/

namespace LuaAudit.Lua

/-- A character that a name can start with. -/
def isNameStart (c : Char) : Bool := c.isAlpha || c == '_'

/-- A character that a name can go on with. -/
def isNameChar (c : Char) : Bool := c.isAlphanum || c == '_'

/-- A character that a dotted name can go on with. -/
def isDottedChar (c : Char) : Bool := isNameChar c || c == '.'

/-- The longest run at the start of a text that starts like a name and goes on with `more`, and what
    follows it. -/
def runOf? (more : Char → Bool) : List Char → Option (List Char × List Char)
  | [] => none
  | c :: cs => if isNameStart c then some (c :: cs.takeWhile more, cs.dropWhile more) else none

/-- The longest name at the start of a text, and what follows it. -/
def name? (cs : List Char) : Option (List Char × List Char) := runOf? isNameChar cs

/-- The longest dotted name at the start of a text, and what follows it. -/
def dottedName? (cs : List Char) : Option (List Char × List Char) := runOf? isDottedChar cs

theorem length_dropWhile_le (p : Char → Bool) (cs : List Char) :
    (cs.dropWhile p).length ≤ cs.length := (List.dropWhile_sublist p).length_le

theorem name?_length {cs name rest : List Char} (h : name? cs = some (name, rest)) :
    rest.length < cs.length := by
  unfold name? runOf? at h
  split at h
  · cases h
  next c tail =>
    split at h
    · have e : tail.dropWhile isNameChar = rest := (Prod.mk.inj (Option.some.inj h)).2
      have := length_dropWhile_le isNameChar tail
      rw [← e, List.length_cons]; omega
    · cases h

end LuaAudit.Lua
