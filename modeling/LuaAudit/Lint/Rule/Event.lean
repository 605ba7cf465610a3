import LuaAudit.Lint.Diagnostic
import LuaAudit.Lint.Script
import LuaAudit.Text.Scan
import LuaAudit.Text.Word

/-!
# Net events

Event names are string literals, so these rules read the written lines.  A find counts only when its
first character is code: the same words inside a comment or a string are passed over.

* `eventCall` recognises a call whose argument is a quoted event name;
* `checkEvents` reports registrations that have a shorter form, and a missing space after `source,`.
-/

namespace LuaAudit.Lint

open Text (Recogniser afterMark? isBlank isWord)

/-- A call of `callee` whose first argument is a quoted event name; with `closed`, its only one. -/
def eventCall (callee : List Char) (closed : Bool) : Recogniser (List Char) := fun _ cs => do
  let args ← Text.after? callee cs
  let arg ← afterMark? '(' args
  let (name, rest) ← Text.quoted? arg
  let rest ← if closed then afterMark? ')' rest else some rest
  return (name, cs.length - rest.length)

/-- The whole word `AddEventHandler`. -/
def handlerWord : Recogniser Unit := fun before cs =>
  if before.any isWord then none
  else match Text.after? "AddEventHandler".toList cs with
    | some rest => if rest.head?.any isWord then none else some ((), 15)
    | none => none

/-- A parameter list that starts with `source` and a comma that no blank follows. -/
def crowdedSource : Recogniser Unit := fun _ cs => do
  let rest ← Text.after? "function".toList cs
  let rest ← afterMark? '(' rest
  let rest ← Text.afterWord? "source".toList rest
  let rest ← afterMark? ',' rest
  if rest.head?.any isBlank then none else some ((), cs.length - rest.length)

/-- A server event registration. -/
def serverRegistration : Recogniser (List Char) := eventCall "RegisterServerEvent".toList true

/-- A net event registration without a handler. -/
def netRegistration : Recogniser (List Char) := eventCall "RegisterNetEvent".toList true

/-- A handler for a named event. -/
def handlerCall : Recogniser (List Char) := eventCall "AddEventHandler".toList false

/-- The written line at an index. -/
def Script.lineAt (s : Script) (index : Nat) : Except PlaceError (List Char) :=
  match s.lines[index]? with
  | some line => .ok line
  | none => .error .noLine

/-- Those of some finds on a line that start in code. -/
def Script.keepCode {α : Type} (s : Script) (index : Nat) :
    List (Text.Occurrence α) → Except PlaceError (List (Text.Occurrence α))
  | [] => .ok []
  | o :: os => do
    let inCode ← s.isCodeAt index o.start
    let rest ← s.keepCode index os
    return if inCode then o :: rest else rest

/-- The first of some finds on a line that starts in code; those after it are not looked at. -/
def Script.firstCode {α : Type} (s : Script) (index : Nat) :
    List (Text.Occurrence α) → Except PlaceError (Option (Text.Occurrence α))
  | [] => .ok none
  | o :: os => do
    let inCode ← s.isCodeAt index o.start
    if inCode then return some o else s.firstCode index os

/-- The finds on a written line that start in code. -/
def Script.codeFinds {α : Type} (s : Script) (find : Recogniser α) (index : Nat) :
    Except PlaceError (List (Text.Occurrence α)) := do
  let line ← s.lineAt index
  s.keepCode index (Text.occurrences find line)

/-- The first find on a written line that starts in code. -/
def Script.codeFind? {α : Type} (s : Script) (find : Recogniser α) (index : Nat) :
    Except PlaceError (Option (Text.Occurrence α)) := do
  let line ← s.lineAt index
  s.firstCode index (Text.occurrences find line)

/-- The report of a registration that no handler follows. -/
def modernRegister (index : Nat) (line : List Char) : Diagnostic where
  range := .onLine index 0 line.length
  message := "Consider using RegisterNetEvent(\"event\", function(...) end) instead of separate " ++
    "RegisterServerEvent and AddEventHandler."
  severity := .information
  code := "event-modern-register"

/-- The report of a handler right after the registration of its event. -/
def combineHandler (index : Nat) (line name : List Char) : Diagnostic where
  range := .onLine index 0 line.length
  message := "You can combine RegisterNetEvent and AddEventHandler: RegisterNetEvent(\"" ++
    String.ofList name ++ "\", function(...) end)"
  severity := .hint
  code := "event-combine-handler"

/-- The report of a comma that no blank follows. -/
def crowdedComma (index : Nat) (o : Text.Occurrence Unit) : Diagnostic where
  range := .onLine index o.start o.stop
  message := "Consider adding space after comma in function parameters: function(source, ...)."
  severity := .hint
  code := "event-style-spacing"

/-- The report of a server registration, unless a handler stands on the next line. -/
def checkRegistration (s : Script) (index : Nat) (line : List Char) :
    Except PlaceError (List Diagnostic) := do
  match ← s.codeFind? serverRegistration index with
  | none => return []
  | some _ =>
    let handler ←
      if index + 1 < s.lines.length then s.codeFind? handlerWord (index + 1) else .ok none
    return if handler.isSome then [] else [modernRegister index line]

/-- The report of a handler, if its event is registered on the line before. -/
def checkHandler (s : Script) (index : Nat) (line : List Char) :
    Except PlaceError (List Diagnostic) := do
  match ← s.codeFind? handlerCall index with
  | none => return []
  | some handler =>
    let registered ← if index = 0 then .ok none else s.codeFind? netRegistration (index - 1)
    return if registered.map (·.value) = some handler.value then
      [combineHandler index line handler.value] else []

/-- The reports for one line, which looks at its two neighbours. -/
def checkEventsOn (s : Script) (index : Nat) (line : List Char) :
    Except PlaceError (List Diagnostic) := do
  let registration ← checkRegistration s index line
  let handler ← checkHandler s index line
  let commas ← s.codeFinds crowdedSource index
  return registration ++ handler ++ commas.map (crowdedComma index)

/-- The net event reports of a script, or the place that a look-up missed. -/
def checkEvents (s : Script) : Except PlaceError (List Diagnostic) := do
  let found ← s.lines.zipIdx.mapM fun (line, index) => checkEventsOn s index line
  return found.flatten

end LuaAudit.Lint
