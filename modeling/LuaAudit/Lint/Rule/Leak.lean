import LuaAudit.Lint.Depth
import LuaAudit.Lint.Diagnostic
import LuaAudit.Lint.Script
import LuaAudit.Lua.Name
import LuaAudit.Text.Blank

/-!
# Global variable leaks

An assignment at file scope to a name that no line so far declared `local` makes a global variable.
The rule reads trimmed masked lines, keeps the names declared so far and the two nesting depths, and
reports an assignment outside tables and functions whose name is neither declared nor excepted.

* `declaredNames` are the names a line declares;
* `assignedName?` is the name a line assigns at its start;
* `Leaks.step` reads one line.
-/

namespace LuaAudit.Lint

open Text (isBlank)

/-- The name after a comma, with blanks around the comma, and what follows it. -/
def nextName? (cs : List Char) : Option (List Char × List Char) :=
  match cs.dropWhile isBlank with
  | ',' :: rest => Lua.name? (rest.dropWhile isBlank)
  | _ => none

theorem nextName?_length {cs name rest : List Char} (h : nextName? cs = some (name, rest)) :
    rest.length < cs.length := by
  unfold nextName? at h
  split at h
  next tail e =>
    have h1 := Lua.name?_length h
    have h2 := Lua.length_dropWhile_le isBlank tail
    have h3 := Lua.length_dropWhile_le isBlank cs
    rw [e, List.length_cons] at h3
    omega
  · cases h

/-- The names of a comma-separated list that goes on after its first name. -/
def moreNames (cs : List Char) : List (List Char) :=
  match h : nextName? cs with
  | some (name, tail) =>
    have := nextName?_length h
    name :: moreNames tail
  | none => []
  termination_by cs.length

/-- The names after `local` and blanks at the start of a line, as far as they form a comma-separated
    list. -/
def declaredNames (line : List Char) : List (List Char) :=
  match Text.after? "local".toList line with
  | some (b :: rest) =>
    if isBlank b then
      match Lua.name? (rest.dropWhile isBlank) with
      | some (name, tail) => name :: moreNames tail
      | none => []
    else []
  | _ => []

/-- The name at the start of a line that a single equals sign follows. -/
def assignedName? (line : List Char) : Option (List Char) :=
  match Lua.name? line with
  | some (name, rest) =>
    match rest.dropWhile isBlank with
    | '=' :: tail => if tail.head? == some '=' then none else some name
    | _ => none
  | none => none

/-- A line that starts with a name, a dot and another name. -/
def startsDotted (line : List Char) : Bool :=
  match Lua.name? line with
  | some (_, '.' :: rest) => (Lua.name? rest).isSome
  | _ => false

/-- Whether an assignment on this line can make a global at all. -/
def canLeak (line : List Char) : Bool :=
  !("local ".toList.isPrefixOf line || Text.containsText "function".toList line ||
    line.contains '\x7b' || line.contains '\x7d' || startsDotted line)

/-- What the rule remembers between lines. -/
structure Leaks where
  locals : List (List Char) := []
  tables : Nat := 0
  functions : Nat := 0

/-- Reads one masked line: what is remembered after it, and the name it leaks. -/
def Leaks.step (exceptions : List (List Char)) (s : Leaks) (masked : List Char) :
    Leaks × Option (List Char) :=
  let line := Text.trim masked
  if line.isEmpty then (s, none)
  else
    let next : Leaks := {
      locals := declaredNames line ++ s.locals
      tables := tableDepth s.tables line
      functions := functionDepth s.functions line }
    if 0 < next.tables || 0 < next.functions then (next, none)
    else match assignedName? line with
      | some name =>
        if canLeak line && !next.locals.contains name && !exceptions.contains name then
          (next, some name)
        else (next, none)
      | none => (next, none)

/-- The report of a name leaked on a line, at its column. -/
def leakDiagnostic (index : Nat) (masked name : List Char) : Diagnostic :=
  let start := Text.countWhile isBlank masked
  { range := .onLine index start (start + name.length)
    message :=
      s!"Potential global variable '{String.ofList name}' detected. Consider using 'local'."
    severity := .information
    code := "global-variable-leak" }

/-- The leaks of the lines from `index` on. -/
def leaksFrom (exceptions : List (List Char)) :
    (index : Nat) → Leaks → List (List Char) → List Diagnostic
  | _, _, [] => []
  | index, s, line :: lines =>
    match s.step exceptions line with
    | (next, some name) =>
      leakDiagnostic index line name :: leaksFrom exceptions (index + 1) next lines
    | (next, none) => leaksFrom exceptions (index + 1) next lines

/-- The global variables that a script leaks. -/
def checkLeaks (exceptions : List (List Char)) (s : Script) : List Diagnostic :=
  leaksFrom exceptions 0 {} s.masked

end LuaAudit.Lint
