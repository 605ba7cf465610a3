import LuaAudit.Files.Basic
import LuaAudit.Files.Wildcard
import LuaAudit.Order

/-!
# Finding files by pattern

A pattern is a relative path whose components may hold wildcards; the component `**` stands for any
number of directories.

* `Glob.parse` reads a pattern or says what is wrong with it;
* `Files.walk` goes through the directories below a directory, as far as they can be listed;
* `Files.glob` lists what a pattern finds below a directory, ordered by components.
-/

namespace LuaAudit

open Location (Path)

/-- One component of a pattern. -/
inductive GlobPart where
  | exact (name : String)
  | wild (items : List Wildcard)
  | anyDirs
  | endSlash
  deriving DecidableEq, Repr

/-- Why a search by pattern fails: what is wrong with the pattern, the path that could not be asked
    for, or directories nested too deep. -/
inductive GlobError where
  | empty
  | absolute
  | gluedStars
  | noParts
  | file (cause : FileError)
  | tooDeep
  deriving DecidableEq, Repr

/-- The wording of a failed search. -/
def GlobError.message : GlobError → String
  | .empty => "Unacceptable pattern: ''"
  | .absolute => "Non-relative patterns are unsupported"
  | .gluedStars => "Invalid pattern: '**' can only be an entire path component"
  | .noParts => "tuple index out of range"
  | .file cause => cause.message
  | .tooDeep => "maximum recursion depth exceeded"

namespace Glob

/-- Two stars in a row. -/
def hasStars : List Char → Bool
  | '*' :: '*' :: _ => true
  | _ :: cs => hasStars cs
  | [] => false

/-- A character with a meaning of its own. -/
def isSpecial (c : Char) : Bool := c == '*' || c == '?' || c == '['

/-- Reads one component. -/
def parsePart (part : String) : Except GlobError GlobPart :=
  if part = "**" then .ok .anyDirs
  else if hasStars part.toList then .error .gluedStars
  else if part.toList.any isSpecial then .ok (.wild (Wildcard.parse part.toList))
  else .ok (.exact part)

/-- Reads a pattern. -/
def parse (s : String) : Except GlobError (List GlobPart) := do
  if s = "" then throw .empty
  let p := Path.parse s
  if p.isAbsolute then throw .absolute
  if p.parts.isEmpty then throw .noParts
  let parts ← p.parts.mapM parsePart
  return if s.toList.getLast? = some '/' then parts ++ [.endSlash] else parts

end Glob

namespace Files

/-- What is found where something was asked for: nothing, where that is refused. -/
def tolerant {α : Type} (empty : α) : Except FileError α → Except GlobError α
  | .ok found => .ok found
  | .error e => if e.fault = .denied then .ok empty else .error (.file e)

/-- Walks one after the other, up to the first that breaks off. -/
def walkEach {α : Type} (walk : α → List Path × Option GlobError) :
    List α → List Path × Option GlobError
  | [] => ([], none)
  | a :: as =>
    match walk a with
    | (found, some e) => (found, some e)
    | (found, none) =>
      let (more, stop) := walkEach walk as
      (found ++ more, stop)

/-- A directory and those below it, down to some level: each before what it holds.  One that may not
    be listed is passed over with all that it holds; any other failure ends the walk. -/
def walk (fs : Files) : (levels : Nat) → Path → List Path × Option GlobError
  | 0, _ => ([], some .tooDeep)
  | levels + 1, p =>
    match tolerant [] (fs.list p) with
    | .error e => ([p], some e)
    | .ok entries =>
      let inner := (entries.filter fun e => e.2 = .directory).map Prod.fst
      let (found, stop) := walkEach (fun name => fs.walk levels (p.child name)) inner
      (p :: found, stop)

/-- What is found from several paths on. -/
def selectEach (select : Path → Except GlobError (List Path)) :
    List Path → Except GlobError (List Path)
  | [] => .ok []
  | p :: ps => do return (← select p) ++ (← selectEach select ps)

/-- What the components of a pattern find from a path on.  Before another component only directories
    count. -/
def select (fs : Files) : List GlobPart → Path → Except GlobError (List Path)
  | [], p => .ok [p]
  | .endSlash :: _, p => .ok [p]
  | .exact name :: rest, p => do
    let q := p.child name
    if ← tolerant false (if rest.isEmpty then fs.pathExists q else fs.isDir q) then fs.select rest q
    else return []
  | .wild items :: rest, p => do
    let entries ← tolerant [] (fs.list p)
    let found := entries.filter fun e =>
      (rest.isEmpty || e.2 = .directory) && Wildcard.isMatch items e.1.toList
    selectEach (fs.select rest) (found.map fun e => p.child e.1)
  | .anyDirs :: rest, p => do
    let (dirs, stop) := fs.walk fs.levels p
    let found ← selectEach (fs.select rest) dirs
    match stop with
    | some e => throw e
    | none => return found.eraseDups

/-- The order of paths below one directory: by components. -/
def pathLe (p q : Path) : Bool := Order.listLe Order.textLe p.parts q.parts

/-- What a pattern finds below a directory, in order; below anything else it finds nothing. -/
def glob (fs : Files) (root : Path) (pattern : String) : Except GlobError (List Path) := do
  let parts ← Glob.parse pattern
  match fs.isDir root with
  | .error e => throw (.file e)
  | .ok true => return (← fs.select parts root).mergeSort pathLe
  | .ok false => return []

/-- The components of a path below a directory. -/
def relativeParts (root p : Path) : List String := p.parts.drop root.parts.length

end Files

end LuaAudit
