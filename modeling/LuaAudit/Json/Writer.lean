import LuaAudit.Json.Value
import LuaAudit.Text.Hex
import LuaAudit.Text.Line

/-!
# Writing JSON

* `Style` says whether a value is spread over indented lines and whether characters beyond ASCII are
  escaped;
* `Json.render` writes a value;
* `Json.encodingFault?` tells of a value whose text cannot be encoded.
-/

namespace LuaAudit.Json

/-- How JSON is laid out: on one line or with `indent` spaces a level, and in ASCII only or not.
    Where it is not, a character stands for each surrogate without its other half. -/
structure Style where
  indent : Option Nat
  ascii : Bool
  stand : Char := Char.ofNat 0xFFFD

/-- A code unit by its four hexadecimal digits. -/
def unitEscape (n : Nat) : List Char := '\\' :: 'u' :: Text.hexDigits 4 n

/-- A character inside a string. -/
def escapeChar (ascii : Bool) (c : Char) : List Char :=
  match c with
  | '"' => ['\\', '"']
  | '\\' => ['\\', '\\']
  | '\n' => ['\\', 'n']
  | '\r' => ['\\', 'r']
  | '\t' => ['\\', 't']
  | c =>
    let n := c.toNat
    if n = 8 then ['\\', 'b']
    else if n = 12 then ['\\', 'f']
    else if n < 0x20 then unitEscape n
    else if ascii && 0x7E < n then
      if n < 0x10000 then unitEscape n
      else unitEscape (0xD800 + (n - 0x10000) / 0x400) ++
        unitEscape (0xDC00 + (n - 0x10000) % 0x400)
    else [c]

/-- A text in quotes. -/
def renderText (ascii : Bool) (s : String) : String :=
  String.ofList ('"' :: s.toList.flatMap (escapeChar ascii) ++ ['"'])

/-- A point inside a string. -/
def escapePoint (style : Style) : Point → List Char
  | .char c => escapeChar style.ascii c
  | .half unit => if style.ascii then unitEscape unit else [style.stand]

/-- Points in quotes. -/
def renderPoints (style : Style) (points : List Point) : String :=
  String.ofList ('"' :: points.flatMap (escapePoint style) ++ ['"'])

/-- A number with a fraction or exponent. -/
def renderReal : Number.Real → String
  | .infinite false => "Infinity"
  | .infinite true => "-Infinity"
  | .nan => "NaN"
  | x => x.text

/-- The break before a member at a depth. -/
def Style.lineBreak (style : Style) (depth : Nat) : String :=
  match style.indent with
  | some width => "\n" ++ String.ofList (List.replicate (width * depth) ' ')
  | none => ""

/-- What stands between two members at a depth. -/
def Style.separator (style : Style) (depth : Nat) : String :=
  match style.indent with
  | some _ => "," ++ style.lineBreak depth
  | none => ", "

/-- Members between their brackets. -/
def Style.surround (style : Style) (depth : Nat) (left right : String) (members : List String) :
    String :=
  if members.isEmpty then left ++ right
  else left ++ style.lineBreak (depth + 1) ++ Text.joinWith (style.separator (depth + 1)) members ++
    style.lineBreak depth ++ right

mutual

/-- A value inside `depth` open brackets. -/
def renderAt (style : Style) (depth : Nat) : Json → String
  | .null => "null"
  | .bool true => "true"
  | .bool false => "false"
  | .int n => toString n
  | .real x => renderReal x
  | .str s => renderText style.ascii s
  | .ragged points => renderPoints style points
  | .arr items => style.surround depth "[" "]" (renderItems style (depth + 1) items)
  | .obj fields => style.surround depth "\x7b" "\x7d" (renderFields style (depth + 1) fields)

/-- The members of a list. -/
def renderItems (style : Style) (depth : Nat) : List Json → List String
  | [] => []
  | v :: vs => renderAt style depth v :: renderItems style depth vs

/-- The members of an object. -/
def renderFields (style : Style) (depth : Nat) : List (String × Json) → List String
  | [] => []
  | (k, v) :: rest =>
    (renderText style.ascii k ++ ": " ++ renderAt style depth v) :: renderFields style depth rest

end

/-- A value as JSON text. -/
def render (style : Style) (v : Json) : String := renderAt style 0 v

/-- Indented by two spaces, all characters as they are. -/
def Style.file : Style := { indent := some 2, ascii := false }

/-- Indented by two spaces, in ASCII. -/
def Style.report : Style := { indent := some 2, ascii := true }

/-- On one line, in ASCII. -/
def Style.line : Style := { indent := none, ascii := true }

/-! ### What cannot be encoded -/

mutual

/-- The surrogates without their other halves in a value, in the order of its text. -/
def halves : Json → List Nat
  | .ragged points => points.filterMap Point.half?
  | .arr items => itemHalves items
  | .obj fields => fieldHalves fields
  | _ => []

/-- Those in the members of a list. -/
def itemHalves : List Json → List Nat
  | [] => []
  | v :: vs => halves v ++ itemHalves vs

/-- Those in the fields of an object. -/
def fieldHalves : List (String × Json) → List Nat
  | [] => []
  | (_, v) :: rest => halves v ++ fieldHalves rest

end

/-- Surrogates in a row, from a position on, that keep a text from being encoded. -/
structure EncodingFault where
  position : Nat
  units : List Nat
  deriving DecidableEq, Repr

/-- The wording of an encoding fault. -/
def EncodingFault.message (f : EncodingFault) : String :=
  let what := match f.units with
    | [unit] => "character '" ++ String.ofList (unitEscape unit) ++ "' in position " ++
        toString f.position
    | units => "characters in position " ++ toString f.position ++ "-" ++
        toString (f.position + units.length - 1)
  "'utf-8' codec can't encode " ++ what ++ ": surrogates not allowed"

/-- Why the text of a value cannot be encoded, if it cannot: its first surrogates in a row.  They
    stand where the text depends on the character that stands for them. -/
def encodingFault? (style : Style) (v : Json) : Option EncodingFault :=
  match halves v with
  | [] => none
  | units =>
    let differs := List.zipWith (· != ·) (render style v).toList
      (render { style with stand := ' ' } v).toList
    let run := (differs.dropWhile (!·)).takeWhile id
    some ⟨(differs.takeWhile (!·)).length, units.take run.length⟩

end LuaAudit.Json
