import LuaAudit.Docs.Signature
import LuaAudit.OrderedMap
import LuaAudit.Text.Case
import LuaAudit.Text.Line
import LuaAudit.Text.Scan
import LuaAudit.Text.Word

/-!
# Documentation comments

The lines of a documentation comment, without their dashes, hold a description, annotations that
start with `@`, and examples.  An example starts after a line that mentions one and runs to the next
such line, the next annotation or the end.

* `splitExamples` separates the examples from the rest;
* `description`, `returnDocs` and `parameterNotes` read the parts of a comment;
* `parameters` reads a parameter list in the light of a comment.
-/

namespace LuaAudit.Docs.Comment

open Text (Recogniser isBlank isWord)

/-- A line that announces an example. -/
def isExampleMark (line : List Char) : Bool :=
  Text.containsText "example".toList (Text.toLower line)

/-- An annotation line. -/
def isTagLine (line : List Char) : Bool := line.head? == some '@'

/-- Lines as one text, blanks at its ends dropped. -/
def joinLines (lines : List (List Char)) : List Char := Text.trim (List.intercalate ['\n'] lines)

/-- The text of an example that ends here, if one is open and it is not empty. -/
def closeExample : Option (List (List Char)) → List (List Char)
  | some lines => if (joinLines lines).isEmpty then [] else [joinLines lines]
  | none => []

/-- The examples and the other lines, given the lines so far of an example that is open. -/
def splitFrom : (current : Option (List (List Char))) → List (List Char) →
    List (List Char) × List (List Char)
  | current, [] => (closeExample current, [])
  | current, line :: lines =>
    if isExampleMark line then
      let (examples, rest) := splitFrom (some []) lines
      (closeExample current ++ examples, rest)
    else match current with
      | some body =>
        if isTagLine line then
          let (examples, rest) := splitFrom none lines
          (closeExample current ++ examples, line :: rest)
        else splitFrom (some (body ++ [line])) lines
      | none =>
        let (examples, rest) := splitFrom none lines
        (examples, line :: rest)

/-- The examples of a comment, and the lines that belong to none. -/
def splitExamples (lines : List (List Char)) : List (List Char) × List (List Char) :=
  splitFrom none lines

/-- The description of a function whose comment has none. -/
def noDescription : String := "No description available"

/-- The description: the lines that are neither example nor annotation, joined by spaces. -/
def description (lines : List (List Char)) : String :=
  let kept := (splitExamples lines).2.filter fun line => !line.isEmpty && !isTagLine line
  let text := Text.trim (List.intercalate [' '] kept)
  if text.isEmpty then noDescription else String.ofList text

/-- The examples of a comment. -/
def examples (lines : List (List Char)) : List String := (splitExamples lines).1.map String.ofList

/-- A run of characters that are no blanks, and the trimmed rest of its line after it. -/
def typeAndText? (cs : List Char) : Option (List Char × List Char) :=
  match cs.takeWhile (!isBlank ·) with
  | [] => none
  | type =>
    let rest := (cs.dropWhile (!isBlank ·)).dropWhile isBlank
    some (type, Text.trim (rest.takeWhile (· != '\n')))

/-- A result annotation: its type and description. -/
def returnNote : Recogniser Return := fun _ cs => do
  let rest ← Text.after? "@return".toList cs
  let (type, text) ← typeAndText? (← Text.afterBlanks? rest)
  return (⟨String.ofList type, .str (String.ofList text)⟩, 1)

/-- A parameter annotation: name, an optional question mark, type and description. -/
def parameterNote : Recogniser Parameter := fun _ cs => do
  let rest ← Text.after? "@param".toList cs
  let rest ← Text.afterBlanks? rest
  let name := rest.takeWhile isWord
  let rest := rest.dropWhile isWord
  let rest := if rest.head? == some '?' then rest.drop 1 else rest
  let (type, text) ← typeAndText? (← Text.afterBlanks? rest)
  if name.isEmpty then none
  else some ({
    name := String.ofList name
    type := .parse (String.ofList type)
    description := .str (String.ofList text) }, 1)

/-- The results that a comment annotates. -/
def returnDocs (lines : List (List Char)) : List Return :=
  lines.filterMap fun line => (Text.first? returnNote line).map (·.value)

/-- The parameters that a comment annotates; the first annotation of a name counts. -/
def parameterNotes (lines : List (List Char)) : OrderedMap String Parameter :=
  lines.foldl (fun notes line =>
    match Text.first? parameterNote line with
    | some o => if notes.contains o.value.name then notes else notes.insert o.value.name o.value
    | none => notes) .empty

/-- A text without its first question mark. -/
def dropQuestion : List Char → List Char
  | [] => []
  | c :: cs => if c == '?' then cs else c :: dropQuestion cs

/-- One parameter of a list: a question mark makes it optional, an annotation gives its type and
    description. -/
def parameter (notes : OrderedMap String Parameter) (raw : List Char) : Parameter :=
  let text := Text.trim raw
  let name := String.ofList (Text.trim (dropQuestion text))
  let note := notes.get? name
  { name
    type := (note.map (·.type)).getD .unknown
    optional := text.contains '?'
    description := (note.map (·.description)).getD .null }

/-- The parameters of a declaration, from the text between its parentheses. -/
def parameters (text : List Char) (lines : List (List Char)) : List Parameter :=
  if Text.allBlank text then []
  else (Text.splitOn ',' text).map (parameter (parameterNotes lines))

end LuaAudit.Docs.Comment
