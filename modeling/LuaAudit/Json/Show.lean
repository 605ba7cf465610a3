import LuaAudit.Json.Value
import LuaAudit.Text.Line
import LuaAudit.Text.Quoted

/-!
# Values as plain text

How a JSON value appears inside running text: a text as itself, everything else by its display form,
in which texts are quoted.
-/

namespace LuaAudit.Json

/-- The display form of points, in quotes. -/
def displayPoints (points : List Point) : String :=
  let quote := Text.Quoted.quoteFor (points.map Point.toChar)
  let escape : Point → List Char
    | .char c => Text.Quoted.escapeChar quote c
    | .half unit => '\\' :: 'u' :: Text.hexDigits 4 unit
  String.ofList (quote :: points.flatMap escape ++ [quote])

mutual

/-- The display form of a value. -/
def display : Json → String
  | .null => "None"
  | .bool true => "True"
  | .bool false => "False"
  | .int n => toString n
  | .real x => x.text
  | .str s => Text.quote s
  | .ragged points => displayPoints points
  | .arr items => "[" ++ Text.joinWith ", " (displayItems items) ++ "]"
  | .obj fields => "\x7b" ++ Text.joinWith ", " (displayFields fields) ++ "\x7d"

/-- The display forms of the members of a list. -/
def displayItems : List Json → List String
  | [] => []
  | v :: vs => display v :: displayItems vs

/-- The display forms of the fields of an object. -/
def displayFields : List (String × Json) → List String
  | [] => []
  | (k, v) :: rest => (Text.quote k ++ ": " ++ display v) :: displayFields rest

end

/-- A value inside running text. -/
def asText : Json → String
  | .str s => s
  | .ragged points => String.ofList (points.map Point.toChar)
  | v => display v

end LuaAudit.Json
