import LuaAudit.Files.Basic
import LuaAudit.Job
import LuaAudit.Json.Value
import LuaAudit.Settings.Basic

/-!
# The network

Pages are asked for through a client, and what the client and the servers behind it do is not known
here: they are a `Network`, and everything else is said for every one of them.

* `Call` is what the client is asked for, `Response` what it hands on, `Breakage` how it fails;
* `Request` is what it sends, as far as the log of the network tells;
* `Network.ask` is all that comes of a call, `Network.decode` how it reads bytes as text.
-/

namespace LuaAudit.Fetch

/-- What a client is asked for: an address with headers, and how long each step may take. -/
structure Call where
  url : String
  headers : List (String × Json)
  timeout : Seconds

/-- A request as it is sent. -/
structure Request where
  url : String
  headers : List (String × String)
  deriving DecidableEq, Repr

/-- What breaks an exchange for good, by its kind and its wording. -/
structure Fatality where
  kind : String
  message : String
  deriving DecidableEq, Repr

/-- How an exchange breaks: on the way, so that another try may help, or for good. -/
inductive Breakage where
  | transport (message : String)
  | fatal (cause : Fatality)
  deriving DecidableEq, Repr

/-- A response as the client hands it on: the status with its wording, the headers that matter, the
    name of the encoding of the body, the body in chunks, and how it breaks off after them, if it
    does. -/
structure Response where
  status : Nat
  reason : String := ""
  contentLength : Option String := none
  etag : Option String := none
  lastModified : Option String := none
  encoding : Option String := none
  chunks : List Bytes := []
  ending : Option Breakage := none
  deriving DecidableEq, Repr

/-- The client and the servers behind it.  What comes of a call may depend on all requests that were
    sent before, and takes the time that the job takes; redirects are followed inside it. -/
structure Network where
  ask : Call → Job (List Request) (Except Breakage Response)
  /-- The text that some bytes are in an encoding, what is ill-formed being replaced. -/
  decode : (encoding : String) → Bytes → Except Fatality String
  /-- The requests that were sent, latest first. -/
  sent : List Request := []

end LuaAudit.Fetch
