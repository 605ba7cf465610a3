import LuaAudit.Location.Path
import LuaAudit.OrderedMap
import LuaAudit.Text.Line
import LuaAudit.Text.Quoted
import LuaAudit.Text.Utf8

/-!
# A tree of files

The files and directories below the root, each under the list of its components, with what the user
may not do to them.  The root itself is always there.  A path with a NUL leads nowhere; paths at
which something is made or removed are assumed to have none.

* `Files.locate` follows a path from the current directory;
* `stat`, `isFile`, `isDir` and `pathExists` ask what a path leads to;
* `read`, `readText`, `list`, `write`, `makeDirs`, `remove` and `removeTree` are the operations;
* `FileError` says which path failed and why.
-/

namespace LuaAudit

open Location (Anchor Path)

/-- The bytes of a file or body. -/
abbrev Bytes := List UInt8

/-- The components that lead from the root to a place. -/
abbrev Place := List String

/-- What stands at a place. -/
inductive Node where
  | file (bytes : Bytes)
  | directory
  deriving DecidableEq, Repr

/-- Files and directories, the current directory, and what is not allowed. -/
structure Files where
  nodes : OrderedMap Place Node := .empty
  /-- The files that may not be read, and the directories that may not be listed. -/
  denied : List Place := []
  cwd : Place := []
  /-- The directories that may not be passed through. -/
  closed : List Place := []
  /-- The files that may not be written, and the directories in which nothing may be made or
      removed. -/
  fixed : List Place := []
  /-- The most bytes of a name, and of a path as it is written. -/
  nameLimit : Nat := 255
  pathLimit : Nat := 4095
  /-- How many directories, one in the other, a search can go down. -/
  levels : Nat := 900

/-- Why a file operation fails. -/
inductive FileFault where
  | missing
  | denied
  | exists
  | notDirectory
  | isDirectory
  | tooLong
  deriving DecidableEq, Repr

/-- A failed file operation and the path it was asked for. -/
structure FileError where
  fault : FileFault
  path : String
  deriving DecidableEq, Repr

/-- The number and the wording of a fault. -/
def FileFault.text : FileFault → String
  | .missing => "[Errno 2] No such file or directory"
  | .denied => "[Errno 13] Permission denied"
  | .exists => "[Errno 17] File exists"
  | .notDirectory => "[Errno 20] Not a directory"
  | .isDirectory => "[Errno 21] Is a directory"
  | .tooLong => "[Errno 36] File name too long"

/-- The wording of a file error. -/
def FileError.message (e : FileError) : String := e.fault.text ++ ": " ++ Text.quote e.path

namespace Files

/-- What stands at a place. -/
def node? (fs : Files) (place : Place) : Option Node :=
  if place = [] then some .directory else fs.nodes.get? place

/-- One component further from a directory. -/
def step (place : Place) (part : String) : Place :=
  if part = ".." then place.dropLast else place ++ [part]

/-- Goes one component further: from a directory that may be passed through, by a name that is not
    too long. -/
def pass (fs : Files) (place : Place) (part : String) : Except FileFault Place :=
  match fs.node? place with
  | some .directory =>
    if fs.closed.contains place then .error .denied
    else if fs.nameLimit < part.utf8ByteSize then .error .tooLong
    else .ok (step place part)
  | some (.file _) => .error .notDirectory
  | none => .error .missing

/-- Follows components from a place. -/
def follow (fs : Files) : Place → List String → Except FileFault Place
  | place, [] => .ok place
  | place, part :: parts =>
    match fs.pass place part with
    | .ok next => fs.follow next parts
    | .error fault => .error fault

/-- Where a path starts. -/
def origin (fs : Files) (p : Path) : Place := if p.isAbsolute then [] else fs.cwd

/-- The place that a path names; nothing need stand there. -/
def locate (fs : Files) (p : Path) : Except FileFault Place :=
  if p.parts.any (·.toList.any fun c => c.toNat = 0) then .error .missing
  else if fs.pathLimit < p.text.utf8ByteSize then .error .tooLong
  else fs.follow (fs.origin p) p.parts

/-! ### Asking -/

/-- What a path leads to.  A way that leads nowhere is no failure. -/
def stat (fs : Files) (p : Path) : Except FileError (Option Node) :=
  match fs.locate p with
  | .ok place => .ok (fs.node? place)
  | .error .missing | .error .notDirectory => .ok none
  | .error fault => .error ⟨fault, p.text⟩

/-- Whether a path leads to anything. -/
def pathExists (fs : Files) (p : Path) : Except FileError Bool := (fs.stat p).map Option.isSome

/-- Whether what was found is a file. -/
def foundFile : Option Node → Bool
  | some (.file _) => true
  | _ => false

/-- Whether a path leads to a file. -/
def isFile (fs : Files) (p : Path) : Except FileError Bool := (fs.stat p).map foundFile

/-- Whether a path leads to a directory. -/
def isDir (fs : Files) (p : Path) : Except FileError Bool :=
  (fs.stat p).map (· == some .directory)

/-- The files among some paths, up to the first path that cannot be asked for, and why it cannot. -/
def filesAmong (fs : Files) : List Path → List Path × Option FileError
  | [] => ([], none)
  | p :: ps =>
    match fs.isFile p with
    | .error e => ([], some e)
    | .ok true =>
      let (found, stop) := fs.filesAmong ps
      (p :: found, stop)
    | .ok false => fs.filesAmong ps

/-- The current directory as a path. -/
def cwdPath (fs : Files) : Path := ⟨.root, fs.cwd⟩

/-- A path made absolute, each `..` taking back the component before it. -/
def resolve (fs : Files) (p : Path) : Path := ⟨.root, p.parts.foldl step (fs.origin p)⟩

/-! ### Reading -/

/-- The bytes of a file. -/
def read (fs : Files) (p : Path) : Except FileError Bytes :=
  match fs.locate p with
  | .error fault => .error ⟨fault, p.text⟩
  | .ok place =>
    match fs.node? place with
    | none => .error ⟨.missing, p.text⟩
    | some node =>
      if fs.denied.contains place then .error ⟨.denied, p.text⟩
      else match node with
        | .directory => .error ⟨.isDirectory, p.text⟩
        | .file bytes => .ok bytes

/-- The text of a file, ill-formed bytes replaced and line ends unified. -/
def readText (fs : Files) (p : Path) : Except FileError String :=
  (fs.read p).map fun bytes => String.ofList (Text.unifyNewlines (Text.Utf8.decodeLossy bytes))

/-- The names in the directory at a place, with what bears them. -/
def listing (fs : Files) (place : Place) : List (String × Node) :=
  fs.nodes.entries.filterMap fun e =>
    if e.1.length = place.length + 1 ∧ place.isPrefixOf e.1 then e.1.getLast?.map (·, e.2) else none

/-- The names in a directory, with what bears them. -/
def list (fs : Files) (p : Path) : Except FileError (List (String × Node)) :=
  match fs.locate p with
  | .error fault => .error ⟨fault, p.text⟩
  | .ok place =>
    match fs.node? place with
    | none => .error ⟨.missing, p.text⟩
    | some (.file _) => .error ⟨.notDirectory, p.text⟩
    | some .directory =>
      if fs.denied.contains place then .error ⟨.denied, p.text⟩ else .ok (fs.listing place)

/-! ### Writing -/

/-- Puts a file at a place. -/
def withFile (fs : Files) (place : Place) (bytes : Bytes) : Files :=
  { fs with nodes := fs.nodes.insert place (.file bytes) }

/-- Puts a file at a path whose directory exists.  A new file changes its directory. -/
def write (fs : Files) (p : Path) (bytes : Bytes) : Except FileError Files :=
  match fs.locate p with
  | .error fault => .error ⟨fault, p.text⟩
  | .ok place =>
    match fs.node? place, fs.node? place.dropLast with
    | some .directory, _ => .error ⟨.isDirectory, p.text⟩
    | found, some .directory =>
      if fs.fixed.contains place || (found.isNone && fs.fixed.contains place.dropLast) then
        .error ⟨.denied, p.text⟩
      else .ok (fs.withFile place bytes)
    | _, some (.file _) => .error ⟨.notDirectory, p.text⟩
    | _, none => .error ⟨.missing, p.text⟩

/-- Makes a directory where nothing stands. -/
def makeDir (fs : Files) (p : Path) : Except FileFault Files :=
  match fs.locate p with
  | .error fault => .error fault
  | .ok place =>
    if (fs.node? place).isSome then .error .exists
    else if p.parts.isEmpty then .error .missing
    else if fs.fixed.contains place.dropLast then .error .denied
    else .ok { fs with nodes := fs.nodes.insert place .directory }

/-- Makes a directory, unless it is there. -/
def ensureDir (fs : Files) (p : Path) : Files × Option FileError :=
  match fs.makeDir p with
  | .ok made => (made, none)
  | .error fault =>
    match fs.isDir p with
    | .ok true => (fs, none)
    | .ok false => (fs, some ⟨fault, p.text⟩)
    | .error e => (fs, some e)

/-- Makes the directory of some components, the last of them first, after those it stands in. -/
def makeUp (fs : Files) (anchor : Anchor) : List String → Files × Option FileError
  | [] => fs.ensureDir ⟨anchor, []⟩
  | part :: above =>
    let p : Path := ⟨anchor, (part :: above).reverse⟩
    match fs.makeDir p with
    | .error .missing =>
      match fs.makeUp anchor above with
      | (made, none) => made.ensureDir p
      | (made, some e) => (made, some e)
    | _ => fs.ensureDir p

/-- Makes a directory and those it stands in.  Those that were made stay when another cannot be
    made. -/
def makeDirs (fs : Files) (p : Path) : Files × Option FileError :=
  fs.makeUp p.anchor p.parts.reverse

/-- Removes a file; one that is missing is no failure. -/
def remove (fs : Files) (p : Path) : Except FileError Files :=
  match fs.locate p with
  | .error .missing => .ok fs
  | .error fault => .error ⟨fault, p.text⟩
  | .ok place =>
    match fs.node? place with
    | none => .ok fs
    | some node =>
      if fs.fixed.contains place.dropLast then .error ⟨.denied, p.text⟩
      else match node with
        | .directory => .error ⟨.isDirectory, p.text⟩
        | .file _ => .ok { fs with nodes := fs.nodes.erase place }

/-- Whether a place lies on the way from one place down to another, which itself does not count. -/
def between (top bottom place : Place) : Bool :=
  top.isPrefixOf place && place.isPrefixOf bottom && place != bottom

/-- Whether a removal from a place downward comes to an entry and may remove it, what stands below
    it aside: every directory on the way can be opened and passed through, the last one may be
    changed, and a directory can be opened itself. -/
def yields (fs : Files) (top : Place) (e : Place × Node) : Bool :=
  !(fs.denied ++ fs.closed).any (between top e.1) && !fs.fixed.contains e.1.dropLast &&
    !(e.2 == .directory && fs.denied.contains e.1)

/-- Whether a removal from a place downward takes what stands at a place: with all that stands
    below. -/
def goes (fs : Files) (top place : Place) : Bool :=
  top.isPrefixOf place && fs.nodes.entries.all fun e => !place.isPrefixOf e.1 || fs.yields top e

/-- Removes a directory and everything below it, as far as that is allowed; what is no directory
    stays. -/
def removeTree (fs : Files) (p : Path) : Files :=
  match fs.locate p with
  | .error _ => fs
  | .ok top =>
    match fs.node? top with
    | some .directory => { fs with nodes := fs.nodes.filter fun e => !fs.goes top e.1 }
    | _ => fs

end Files

end LuaAudit
