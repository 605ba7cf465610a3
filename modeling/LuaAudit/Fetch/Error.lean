import LuaAudit.Fetch.Http
import LuaAudit.Location.Url
import LuaAudit.Number.Literal

/-!
# Why a source cannot be fetched

* `Setback` is a failed try that another try may mend;
* `FetchError` is a failure for good;
* `message` is the wording of each.
-/

namespace LuaAudit.Fetch

open Location (Path PathError)

/-- Why one try failed, when another try may succeed. -/
inductive Setback where
  | status (code : Nat)
  | transport (message : String)
  | late (limit : Seconds)
  deriving DecidableEq, Repr

/-- The wording of a setback. -/
def Setback.message : Setback → String
  | .status code => "HTTP " ++ toString code
  | .transport message => message
  | .late limit => "timed out after " ++ limit.text ++ "s"

/-- Why a source cannot be fetched. -/
inductive FetchError where
  | refused (source : String) (status : Nat) (reason : String)
  | exhausted (source : String) (last : Setback)
  | missing (source : String) (place : Path)
  | notWeb (source : String)
  | tooLarge (source : String) (max : Int)
  | path (cause : PathError)
  | file (cause : FileError)
  | longNumber (digits : Nat)
  | fatal (cause : Fatality)
  deriving DecidableEq, Repr

/-- The wording of a fetch error. -/
def FetchError.message : FetchError → String
  | .refused source status reason => source ++ ": HTTP " ++ toString status ++ ": " ++ reason
  | .exhausted source last => source ++ ": " ++ last.message
  | .missing source place => source ++ ": file not found: " ++ place.text
  | .notWeb source => source ++ ": invalid URL format"
  | .tooLarge source max => source ++ ": file too large (max " ++ toString max ++ " bytes)"
  | .path cause => cause.message
  | .file cause => cause.message
  | .longNumber digits => Number.tooManyDigits digits
  | .fatal cause => cause.message

end LuaAudit.Fetch
