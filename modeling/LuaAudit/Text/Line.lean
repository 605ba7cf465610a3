/-!
# Lines

* `splitLines` cuts a text at each line feed, taking a carriage return right before it along;
* `splitOn` cuts a text at every occurrence of one character;
* `unifyNewlines` turns every line ending into a single line feed.
-/

namespace LuaAudit.Text

/-- Puts a character in front of the first line. -/
def consLine (c : Char) : List (List Char) → List (List Char)
  | [] => [[c]]
  | line :: lines => (c :: line) :: lines

/-- The lines of a text.  A line ends at a line feed or at a carriage return with a line feed; the
    text after the last ending is a line too, so there is always one. -/
def splitLines : List Char → List (List Char)
  | [] => [[]]
  | '\r' :: '\n' :: cs => [] :: splitLines cs
  | '\n' :: cs => [] :: splitLines cs
  | c :: cs => consLine c (splitLines cs)

/-- The pieces of a text between the occurrences of a separator. -/
def splitOn (sep : Char) : List Char → List (List Char)
  | [] => [[]]
  | c :: cs => if c == sep then [] :: splitOn sep cs else consLine c (splitOn sep cs)

/-- Every line ending, be it a line feed, a carriage return or both, as one line feed. -/
def unifyNewlines : List Char → List Char
  | [] => []
  | '\r' :: '\n' :: cs => '\n' :: unifyNewlines cs
  | '\r' :: cs => '\n' :: unifyNewlines cs
  | c :: cs => c :: unifyNewlines cs

/-- The pieces with a separator between them. -/
def joinWith (sep : String) (pieces : List String) : String := sep.intercalate pieces

end LuaAudit.Text
