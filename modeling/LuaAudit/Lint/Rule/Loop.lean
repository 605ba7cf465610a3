import LuaAudit.Lint.Block
import LuaAudit.Lint.Diagnostic
import LuaAudit.Text.Word

/-!
# Loops that never yield

A `while` or `repeat` loop whose body has no call of a yielding function keeps its thread busy and
freezes the server or the client.  A loop is reported when its end is found and no line between its
opener and its end has such a call.

* `LoopRule` is what the two rules differ in;
* `yieldCall` recognises a call of one of the yielding functions;
* `LoopRule.check` reports the loops of a script.
-/

namespace LuaAudit.Lint

open Text (Recogniser isBlank isWord)

/-- Whether a place between two characters, each absent at an end of the text, separates a word
    character from something else. -/
def isBoundary (before after : Option Char) : Bool :=
  before.any isWord != after.any isWord

/-- The length of `name`, blanks and an opening parenthesis at the start of a text. -/
def callLength? (name cs : List Char) : Option Nat := do
  let rest ← Text.after? name cs
  match rest.dropWhile isBlank with
  | '(' :: _ => some (name.length + Text.countWhile isBlank rest + 1)
  | _ => none

/-- A call of one of the named functions, at a word boundary; earlier names win.  Without any name
    to look for there is no such call. -/
def yieldCall (names : List (List Char)) : Recogniser Unit := fun before cs =>
  if names.isEmpty || names == [[]] then none
  else if isBoundary before cs.head? then
    (names.findSome? (callLength? · cs)).map fun n => ((), n)
  else none

/-- The offset just after the last `do` that stands between a blank and the end of its word. -/
def afterLastDo? : List Char → Option Nat
  | [] => none
  | c :: cs =>
    match afterLastDo? cs with
    | some n => some (n + 1)
    | none =>
      match cs with
      | 'd' :: 'o' :: rest => if isBlank c && !rest.head?.any isWord then some 3 else none
      | _ => none

/-- `while`, a condition and `do` on one line, up to the last `do`. -/
def whileOpener : Recogniser Unit := fun before cs =>
  if before.any isWord then none
  else match Text.after? "while".toList cs with
    | some (b :: _ :: rest) =>
      if isBlank b then (afterLastDo? rest).map fun n => ((), n + 7) else none
    | _ => none

/-- The word `repeat`. -/
def repeatOpener : Recogniser Unit := fun before cs =>
  if before.any isWord then none
  else match Text.after? "repeat".toList cs with
    | some rest => if rest.head?.any isWord then none else some ((), 6)
    | none => none

/-- One kind of loop: how its opener looks, which words open and close its block, and how it is
    reported. -/
structure LoopRule where
  opener : Recogniser Unit
  words : BlockWords
  message : String
  code : String

/-- The rule for `while` loops. -/
def LoopRule.while : LoopRule where
  opener := whileOpener
  words := ⟨"while".toList, "end".toList⟩
  message := "While loop without Wait() detected. Possible server freeze detected!"
  code := "loop-no-yield-while"

/-- The rule for `repeat` loops. -/
def LoopRule.repeat : LoopRule where
  opener := repeatOpener
  words := ⟨"repeat".toList, "until".toList⟩
  message := "Repeat loop without Wait() detected. Possible server freeze detected!"
  code := "loop-no-yield-repeat"

/-- Whether a line has a call of a yielding function. -/
def yields (names : List (List Char)) (line : List Char) : Bool :=
  (Text.first? (yieldCall names) line).isSome

/-- The report for a line, if a loop opens there, ends, and does not yield in between. -/
def LoopRule.checkLine (rule : LoopRule) (names : List (List Char)) (lines : List (List Char))
    (index : Nat) (line : List Char) : Option Diagnostic := do
  let opener ← Text.first? rule.opener line
  let stop ← blockEnd? rule.words lines index
  if ((lines.take stop).drop (index + 1)).any (yields names) then none
  else some {
    range := .onLine index opener.start opener.stop
    message := rule.message
    severity := .warning
    code := rule.code }

/-- The loops of a script that never yield. -/
def LoopRule.check (rule : LoopRule) (names : List (List Char)) (s : Script) : List Diagnostic :=
  s.masked.zipIdx.filterMap fun (line, index) => rule.checkLine names s.masked index line

end LuaAudit.Lint
