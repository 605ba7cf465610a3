import LuaAudit.Text.Line

/-!
# Paths

A path is a list of components below nothing, below the root `/` or below the special root `//`.
Empty components and single dots are dropped when a path is read; `..` stays.

* `Path.parse` and `Path.text` read and write a path;
* `Path.join` appends one path to another, an absolute one replacing it;
* `Path.expandUser` puts a home directory in place of a leading `~` or `~user`.
-/

namespace LuaAudit.Location

/-- Where a path starts. -/
inductive Anchor where
  | relative
  | root
  | doubleRoot
  deriving DecidableEq, Repr

/-- An anchor as written. -/
def Anchor.text : Anchor → String
  | .relative => ""
  | .root => "/"
  | .doubleRoot => "//"

/-- A path: where it starts, and its components. -/
structure Path where
  anchor : Anchor
  parts : List String
  deriving DecidableEq, Repr

namespace Path

/-- The anchor of a written path: exactly two slashes are special, any other number is the root. -/
def anchorOf : List Char → Anchor
  | '/' :: '/' :: '/' :: _ => .root
  | '/' :: '/' :: _ => .doubleRoot
  | '/' :: _ => .root
  | _ => .relative

/-- The components of a written path. -/
def partsOf (cs : List Char) : List String :=
  ((Text.splitOn '/' cs).map String.ofList).filter fun p => p ≠ "" ∧ p ≠ "."

/-- Reads a path. -/
def parse (s : String) : Path := ⟨anchorOf s.toList, partsOf s.toList⟩

/-- Writes a path; the empty one is a dot. -/
def text (p : Path) : String :=
  if p.anchor = .relative ∧ p.parts = [] then "."
  else p.anchor.text ++ Text.joinWith "/" p.parts

/-- Whether a path does not depend on the current directory. -/
def isAbsolute (p : Path) : Bool := p.anchor ≠ .relative

/-- The second path as seen from the first. -/
def join (p q : Path) : Path := if q.isAbsolute then q else ⟨p.anchor, p.parts ++ q.parts⟩

/-- A component below a path. -/
def child (p : Path) (name : String) : Path := ⟨p.anchor, p.parts ++ [name]⟩

/-- The path without its last component. -/
def parent (p : Path) : Path := ⟨p.anchor, p.parts.dropLast⟩

/-- The last component; none for a bare anchor. -/
def name? (p : Path) : Option String := p.parts.getLast?

end Path

/-- The home directories: of the user who runs the program, and of the others that are known. -/
structure Homes where
  own : Path
  other? : (user : String) → Option Path := fun _ => none

/-- Why there is no home directory: the user is not known, or the name cannot be asked for. -/
inductive HomeError where
  | unknown
  | illFormed
  deriving DecidableEq, Repr

/-- The wording of a missing home directory. -/
def HomeError.message : HomeError → String
  | .unknown => "Could not determine home directory."
  | .illFormed => "embedded null byte"

/-- The home directory of a user by name. -/
def Homes.find (homes : Homes) (user : List Char) : Except HomeError Path :=
  if user.any fun c => c.toNat = 0 then .error .illFormed
  else match homes.other? (String.ofList user) with
    | some home => .ok home
    | none => .error .unknown

/-- Puts the home directory in place of a leading `~`, or that of a user in place of `~user`. -/
def Path.expandUser (p : Path) (homes : Homes) : Except HomeError Path :=
  match p.anchor, p.parts with
  | .relative, "~" :: rest => .ok ⟨homes.own.anchor, homes.own.parts ++ rest⟩
  | .relative, first :: rest =>
    match first.toList with
    | '~' :: user => (homes.find user).map fun home => ⟨home.anchor, home.parts ++ rest⟩
    | _ => .ok p
  | _, _ => .ok p

end LuaAudit.Location
