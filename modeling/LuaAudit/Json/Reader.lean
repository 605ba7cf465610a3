import LuaAudit.Json.Token

/-!
# Reading JSON

The tokens of a text drive a stack machine: each open list or object is a frame that collects what
it holds, and a finished value goes to the innermost frame.

* `Frame` is an unfinished list or object;
* `Reader.step` takes one token, `Reader.take` within a limit on how many frames are open;
* `Json.read` reads a whole text, `ReadFault` says why one that may be well formed is not read.
-/

namespace LuaAudit.Json

/-- An unfinished list or object, its members in reverse. -/
inductive Frame where
  | list (done : List Json)
  | fields (done : List (String × Json))
  | keyed (done : List (String × Json)) (key : String)

/-- What may come next. -/
inductive Expect where
  | value
  | valueOrClose
  | key
  | keyOrClose
  | colon
  | commaOrClose
  | finished (v : Json)

/-- A partly read text. -/
structure Reader where
  stack : List Frame
  expect : Expect

/-- A finished value goes to the innermost frame. -/
def Reader.give (v : Json) : List Frame → Option Reader
  | [] => some ⟨[], .finished v⟩
  | .list done :: stack => some ⟨.list (v :: done) :: stack, .commaOrClose⟩
  | .keyed done key :: stack => some ⟨.fields ((key, v) :: done) :: stack, .commaOrClose⟩
  | .fields _ :: _ => none

/-- A value starts. -/
def Reader.start (stack : List Frame) : Token → Option Reader
  | .atom v => Reader.give v stack
  | .openBracket => some ⟨.list [] :: stack, .valueOrClose⟩
  | .openBrace => some ⟨.fields [] :: stack, .keyOrClose⟩
  | _ => none

/-- The key that a token writes, if it writes a text. -/
def Token.key? : Token → Option String
  | .atom (.str key) => some key
  | .atom (.ragged points) => some (String.ofList (points.map Point.toChar))
  | _ => none

/-- A key is read. -/
def Reader.takeKey (stack : List Frame) (t : Token) : Option Reader :=
  match stack, t.key? with
  | .fields done :: stack, some key => some ⟨.keyed done key :: stack, .colon⟩
  | _, _ => none

/-- The innermost list or object ends. -/
def Reader.close : List Frame → Token → Option Reader
  | .list done :: stack, .closeBracket => Reader.give (.arr done.reverse) stack
  | .fields done :: stack, .closeBrace => Reader.give (Json.object done.reverse) stack
  | _, _ => none

/-- One token. -/
def Reader.step (r : Reader) (t : Token) : Option Reader :=
  match r.expect, t with
  | .value, t => Reader.start r.stack t
  | .valueOrClose, .closeBracket => Reader.close r.stack t
  | .valueOrClose, t => Reader.start r.stack t
  | .key, t => Reader.takeKey r.stack t
  | .keyOrClose, .closeBrace => Reader.close r.stack t
  | .keyOrClose, t => Reader.takeKey r.stack t
  | .colon, .colon => some ⟨r.stack, .value⟩
  | .commaOrClose, .comma =>
    match r.stack with
    | .list _ :: _ => some ⟨r.stack, .value⟩
    | .fields _ :: _ => some ⟨r.stack, .key⟩
    | _ => none
  | .commaOrClose, t => Reader.close r.stack t
  | _, _ => none

/-- Why a text is not read that may be well formed: a whole number has too many digits, or lists and
    objects are nested too deep, with an object or a list as the last. -/
inductive ReadFault where
  | longNumber (digits : Nat)
  | tooDeep (atObject : Bool)
  deriving DecidableEq, Repr

/-- The wording of a fault. -/
def ReadFault.message : ReadFault → String
  | .longNumber digits => Number.tooManyDigits digits
  | .tooDeep atObject => "maximum recursion depth exceeded while decoding a JSON " ++
      (if atObject then "object" else "array") ++ " from a unicode string"

/-- Whether a token opens an object. -/
def Token.opensObject : Token → Bool
  | .openBrace => true
  | _ => false

/-- One token, with a limit on the frames that may be open. -/
def Reader.take (limit : Nat) (r : Reader) (t : Token) : Except ReadFault (Option Reader) :=
  match r.step t with
  | none => .ok none
  | some next => if next.stack.length ≤ limit then .ok next else .error (.tooDeep t.opensObject)

/-- The value of a text that ends here, if it may. -/
def Reader.value? (r : Reader) : Option Json :=
  match r.expect with
  | .finished v => some v
  | _ => none

/-- What comes of a text that goes on with no token: where a value may stand, a whole number can
    have too many digits. -/
def Reader.refuse (r : Reader) (cs : List Char) : Except ReadFault (Option Json) :=
  match r.expect, overlong? cs with
  | .value, some digits | .valueOrClose, some digits => .error (.longNumber digits)
  | _, _ => .ok none

/-- Reads the rest of a text, token by token. -/
def Reader.run (limit : Nat) (r : Reader) (cs : List Char) : Except ReadFault (Option Json) :=
  match cs with
  | [] => .ok r.value?
  | c :: rest =>
    if isSpace c then r.run limit rest
    else match h : Token.read? (c :: rest) with
      | none => r.refuse (c :: rest)
      | some (token, tail) =>
        have : tail.length < rest.length + 1 := Token.read?_length h
        match r.take limit token with
        | .ok (some next) => next.run limit tail
        | .ok none => .ok none
        | .error fault => .error fault
  termination_by cs.length

/-- How many lists and objects, one in the other, are read: enough for what the program writes. -/
structure Depth where
  levels : Nat := 900
  enough : 16 ≤ levels := by decide

/-- The depth that is read unless another is given. -/
def Depth.usual : Depth := {}

/-- The value of a JSON text, with nothing but white space around it; none for an ill-formed
    text. -/
def read (limit : Depth) (s : String) : Except ReadFault (Option Json) :=
  Reader.run limit.levels ⟨[], .value⟩ s.toList

/-- The value of a JSON text, however deep it is nested. -/
def parse? (s : String) : Option Json :=
  (Reader.run s.length ⟨[], .value⟩ s.toList).toOption.join

end LuaAudit.Json
