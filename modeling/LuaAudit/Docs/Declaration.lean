import LuaAudit.Lua.Name
import LuaAudit.Text.Scan

/-!
# Function declarations

The forms in which a function is declared.  A `Shape` reads one form at the start of a text.

* `annotatedShapes` and `hybridShapes` are tried in order on a line;
* `plainShapes` are searched in a whole file.
-/

namespace LuaAudit.Docs

open Text (after? afterBlanks? afterMark? afterWord?)

/-- The name of a declared function, the text of its parameters, and what follows them. -/
structure Declaration where
  name : List Char
  parameters : List Char
  rest : List Char
  deriving DecidableEq, Repr

/-- A form of declaration, read at the start of a text. -/
abbrev Shape := List Char → Option Declaration

/-- The text up to a closing parenthesis on the same line, and what follows it. -/
def closed? (cs : List Char) : Option (List Char × List Char) :=
  match cs.dropWhile fun c => c != ')' && c != '\n' with
  | ')' :: rest => some (cs.takeWhile fun c => c != ')' && c != '\n', rest)
  | _ => none

/-- A parameter list in parentheses. -/
def parenthesised? (cs : List Char) : Option (List Char × List Char) :=
  (afterMark? '(' cs).bind closed?

/-- `= function(…)`: the parameters and what follows. -/
def assigned? (cs : List Char) : Option (List Char × List Char) := do
  let rest ← afterMark? '=' cs
  let rest ← afterWord? "function".toList rest
  parenthesised? rest

namespace Shape

/-- `function name(…)`. -/
def function : Shape := fun cs => do
  let rest ← after? "function".toList cs
  let (name, rest) ← Lua.dottedName? (← afterBlanks? rest)
  let (parameters, rest) ← parenthesised? rest
  return ⟨name, parameters, rest⟩

/-- `local function name(…)`. -/
def localFunction : Shape := fun cs => do
  function (← afterBlanks? (← after? "local".toList cs))

/-- `name = function(…)`. -/
def assignment : Shape := fun cs => do
  let (name, rest) ← Lua.dottedName? cs
  let (parameters, rest) ← assigned? rest
  return ⟨name, parameters, rest⟩

/-- `name = function(…)` after a given table and dot, which do not belong to the name. -/
def fieldOf (table : String) : Shape := fun cs => do
  assignment (← after? (table ++ ".").toList cs)

/-- The shortest text on a line that `= function(…)` follows. -/
def anyField (cs : List Char) : Option Declaration :=
  match assigned? cs, cs with
  | some (parameters, rest), _ => some ⟨[], parameters, rest⟩
  | none, [] => none
  | none, c :: tail =>
    if c == '\n' then none else (anyField tail).map fun d => { d with name := c :: d.name }

/-- `exports.… = function(…)`, where the name may hold any characters. -/
def exportField : Shape := fun cs => do anyField (← after? "exports.".toList cs)

/-- `exports('name', function(…)`. -/
def exportCall : Shape := fun cs => do
  let rest ← after? "exports".toList cs
  let (name, rest) ← Text.quoted? (← afterMark? '(' rest)
  let rest ← afterWord? "function".toList (← afterMark? ',' rest)
  let (parameters, rest) ← parenthesised? rest
  return ⟨name, parameters, rest⟩

/-- Searches a text for a shape. -/
def recogniser (shape : Shape) : Text.Recogniser Declaration := fun _ cs =>
  (shape cs).map fun d => (d, cs.length - d.rest.length)

end Shape

/-- The forms of an annotated file; the first that fits a line counts. -/
def annotatedShapes : List Shape :=
  [.function, .assignment, .localFunction, .exportField, .fieldOf "lib"]

/-- The forms of a file that mixes annotations and exports. -/
def hybridShapes : List Shape :=
  [.function, .assignment, .localFunction, .exportField, .exportCall]

/-- The forms that are searched in a whole file, one after the other. -/
def plainShapes : List Shape :=
  [.function, .assignment, .exportCall, .fieldOf "exports"]

/-- The declaration on a line. -/
def declaration? (shapes : List Shape) (line : List Char) : Option Declaration :=
  shapes.findSome? fun shape => shape line

end LuaAudit.Docs
