import LuaAudit.Lint.Diagnostic
import LuaAudit.Lint.Script
import LuaAudit.Lua.Name
import LuaAudit.OrderedMap
import LuaAudit.Text.Scan
import LuaAudit.Text.Word

/-!
# Local functions used before their declaration

A local function can be called only below its declaration: a call on an earlier line finds nothing.

* `declarations` maps each local function to its last declaration line;
* `bareCall` recognises a call of a plain name, not of a field or a method;
* `checkOrder` reports the calls above that line.
-/

namespace LuaAudit.Lint

open Text (Recogniser afterBlanks? isBlank isWord)

/-- A declaration `local function name(`; it finds the name. -/
def localFunction : Recogniser (List Char) := fun _ cs => do
  let rest ← Text.after? "local".toList cs
  let rest ← afterBlanks? rest
  let rest ← Text.after? "function".toList rest
  let rest ← afterBlanks? rest
  let (name, rest) ← Lua.name? rest
  match rest.dropWhile isBlank with
  | '(' :: tail => some (name, cs.length - tail.length)
  | _ => none

/-- A call of a plain name: no word character, dot or colon before it, and an opening parenthesis
    after it. -/
def bareCall : Recogniser (List Char) := fun before cs =>
  if before.any fun c => isWord c || c == '.' || c == ':' then none
  else do
    let (name, rest) ← Lua.name? cs
    match rest.dropWhile isBlank with
    | '(' :: tail => some (name, cs.length - tail.length)
    | _ => none

/-- Each local function with the index of the last line that declares it, in order of first
    declaration.  A line declares at most its leftmost one. -/
def declarations (lines : List (List Char)) : OrderedMap (List Char) Nat :=
  lines.zipIdx.foldl (fun found (line, index) =>
    match Text.first? localFunction line with
    | some o => found.insert o.value index
    | none => found) .empty

/-- The report of a call above the declaration of its function. -/
def earlyCall (index declared : Nat) (o : Text.Occurrence (List Char)) : Diagnostic where
  range := .onLine index o.start (o.start + o.value.length)
  message := s!"Local function '{String.ofList o.value}' is used before it's declared " ++
    s!"(declared on line {declared + 1}). This will cause a runtime error."
  severity := .error
  code := "local-function-before-declaration"

/-- The early calls on a line that declares no local function itself. -/
def checkOrderOn (found : OrderedMap (List Char) Nat) (index : Nat) (line : List Char) :
    List Diagnostic :=
  if (Text.first? localFunction line).isSome then []
  else (Text.occurrences bareCall line).filterMap fun o =>
    match found.get? o.value with
    | some declared => if index < declared then some (earlyCall index declared o) else none
    | none => none

/-- The calls of local functions above their declaration. -/
def checkOrder (s : Script) : List Diagnostic :=
  let found := declarations s.masked
  s.masked.zipIdx.flatMap fun (line, index) => checkOrderOn found index line

end LuaAudit.Lint
