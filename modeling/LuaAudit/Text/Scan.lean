import LuaAudit.Text.Blank
import LuaAudit.Text.Search

/-!
# Small recognisers

Readers of a few characters at the start of a text.  Each gives what it read, if anything, and the
text that follows.
-/

namespace LuaAudit.Text

/-- What follows at least one blank. -/
def afterBlanks? : List Char → Option (List Char)
  | c :: cs => if isBlank c then some (cs.dropWhile isBlank) else none
  | [] => none

/-- What follows blanks, if any, and one given character. -/
def afterMark? (mark : Char) (cs : List Char) : Option (List Char) :=
  match cs.dropWhile isBlank with
  | c :: rest => if c == mark then some rest else none
  | [] => none

/-- What follows blanks, if any, and a given word. -/
def afterWord? (word : List Char) (cs : List Char) : Option (List Char) :=
  after? word (cs.dropWhile isBlank)

/-- A quote of either kind. -/
def isQuoteMark (c : Char) : Bool := c == '\'' || c == '"'

/-- A text between two quotes, after blanks: not empty, without quotes in it, the two quotes not
    necessarily the same; and what follows it. -/
def quoted? (cs : List Char) : Option (List Char × List Char) :=
  match cs.dropWhile isBlank with
  | q :: rest =>
    if isQuoteMark q then
      match rest.takeWhile (!isQuoteMark ·), rest.dropWhile (!isQuoteMark ·) with
      | [], _ => none
      | _, [] => none
      | name, _ :: tail => some (name, tail)
    else none
  | [] => none

end LuaAudit.Text
