import LuaAudit.Files.Glob
import LuaAudit.Json.Writer

/-!
# Refresh reports

* `Report` says what a refresh did with each source;
* `RefreshError` says why a refresh broke off.
-/

namespace LuaAudit.Index

open Location (HomeError)

/-- What a refresh did: the updated sources with their numbers of functions, the unchanged ones, the
    failed ones with the reasons, and the workspace files with their numbers of functions. -/
structure Report where
  updated : OrderedMap String Nat := .empty
  unchanged : List String := []
  failed : OrderedMap String String := .empty
  workspace : OrderedMap String Nat := .empty

/-- Numbers by name as a record. -/
def countsJson (m : OrderedMap String Nat) : Json :=
  .obj (m.map fun (n : Nat) => Json.int n).entries

/-- The fields of a report. -/
def Report.fields (r : Report) : List (String × Json) := [
  ("updated", countsJson r.updated),
  ("not_modified", .arr (r.unchanged.map .str)),
  ("failed", .obj (r.failed.map Json.str).entries),
  ("local", countsJson r.workspace)]

/-- A report as a record. -/
def Report.toJson (r : Report) : Json := .obj r.fields

/-- Why a refresh breaks off: the workspace cannot be found, or not be searched, or the catalogue
    cannot be encoded. -/
inductive RefreshError where
  | home (cause : HomeError)
  | pattern (cause : GlobError)
  | encoding (cause : Json.EncodingFault)
  deriving DecidableEq, Repr

/-- The wording of a refresh error. -/
def RefreshError.message : RefreshError → String
  | .home cause => cause.message
  | .pattern cause => cause.message
  | .encoding cause => cause.message

/-- How a refresh ends. -/
abbrev Outcome := Except RefreshError Report

end LuaAudit.Index
