import LuaAudit.Docs.Record
import LuaAudit.Fetch.Error
import LuaAudit.Json.Token
import LuaAudit.World

/-!
# One attempt

One attempt to fetch a page: the client is asked for it, and the body is read up to a size limit,
all before a deadline.

* `conditionalHeaders` are the headers of a call, with the marks of the version at hand;
* `readBody` reads a body up to the limit, and tells what it left unread;
* `attempt` is the whole attempt.
-/

namespace LuaAudit.Fetch

/-! ### Headers -/

/-- A version mark as a header, left out when it counts as absent. -/
def markHeader (name : String) (mark : Json) : List (String × Json) :=
  if mark.truthy then [(name, mark)] else []

/-- The headers of a call: who asks, and which version is at hand. -/
def conditionalHeaders (s : Settings) (cached : Option Docs.Entry) : List (String × Json) :=
  ("User-Agent", .str (s.label .userAgent)) :: match cached with
    | some e => markHeader "If-None-Match" e.etag ++ markHeader "If-Modified-Since" e.lastModified
    | none => []

/-! ### Bodies -/

/-- A fetched page.  An unchanged page and a failing server have no content. -/
structure Page where
  status : Nat
  content : Option String := none
  etag : Option String := none
  lastModified : Option String := none
  deriving DecidableEq, Repr

/-- Whether the version at hand is still current. -/
def Page.isUnchanged (p : Page) : Bool := p.status = 304

/-- Takes chunk after chunk, and stops at the one with which there are more than `max` bytes; empty
    chunks do not count.  Gives the bytes, unless they are too many, and the chunks left unread. -/
def readChunks (max : Int) (total : Nat) : List Bytes → Option Bytes × List Bytes
  | [] => (some [], [])
  | chunk :: chunks =>
    if chunk.isEmpty then readChunks max total chunks
    else
      let total := total + chunk.length
      if max < total then (none, chunks)
      else
        let (bytes, unread) := readChunks max total chunks
        (bytes.map (chunk ++ ·), unread)

/-- Why a body is not read: it is too large, its declared size is a number of too many digits, it
    breaks off, or its encoding cannot be read. -/
inductive BodyFault where
  | tooLarge
  | longNumber (digits : Nat)
  | broken (cause : Breakage)
  | illegible (cause : Fatality)
  deriving DecidableEq, Repr

/-- The digits by which a header declares a size, when it is a whole number. -/
def declaredDigits? (declared : Option String) : Option (List Char) :=
  match declared with
  | some text => if text.isEmpty || !text.toList.all Char.isDigit then none else some text.toList
  | none => none

/-- Compares a declared size with the limit; a header that is no whole number declares nothing. -/
def checkDeclared (max : Int) (declared : Option String) : Except BodyFault Unit :=
  match declaredDigits? declared with
  | none => .ok ()
  | some ds =>
    if Number.maxDigits < ds.length then .error (.longNumber ds.length)
    else if max < Json.digitsValue ds then .error .tooLarge
    else .ok ()

/-- The encoding of a body: the one that is named, or else UTF-8. -/
def Response.charset (r : Response) : String := (r.encoding.filter (· ≠ "")).getD "utf-8"

/-- The text of the bytes that were read, if the body ends with them. -/
def Response.text (r : Response) (n : Network) (bytes : Bytes) : Except BodyFault String :=
  match r.ending with
  | some cause => .error (.broken cause)
  | none =>
    match n.decode r.charset bytes with
    | .ok text => .ok text
    | .error cause => .error (.illegible cause)

/-- Reads a body of at most `max` bytes; the declared size counts as well.  Gives the text, or why
    there is none, and the chunks left unread. -/
def readBody (n : Network) (max : Int) (r : Response) : Except BodyFault String × List Bytes :=
  match checkDeclared max r.contentLength with
  | .error fault => (.error fault, r.chunks)
  | .ok () =>
    match readChunks max 0 r.chunks with
    | (none, unread) => (.error .tooLarge, unread)
    | (some bytes, unread) => (r.text n bytes, unread)

/-! ### The attempt -/

/-- How an attempt ends: with a page, with something that another attempt may mend, or with a
    failure for good. -/
inductive Outcome where
  | page (page : Page)
  | transport (message : String)
  | late (limit : Seconds)
  | failed (cause : FetchError)

/-- What an exchange that breaks comes to. -/
def Breakage.outcome : Breakage → Outcome
  | .transport message => .transport message
  | .fatal cause => .failed (.fatal cause)

/-- What a body that is not read comes to. -/
def BodyFault.outcome (name : String) (max : Int) : BodyFault → Outcome
  | .tooLarge => .failed (.tooLarge name max)
  | .longNumber digits => .failed (.longNumber digits)
  | .broken cause => cause.outcome
  | .illegible cause => .failed (.fatal cause)

/-- What a response amounts to. -/
def judge (n : Network) (name : String) (max : Int) (r : Response) : Outcome :=
  if r.status = 304 ∨ 500 ≤ r.status then .page { status := r.status }
  else if 400 ≤ r.status then .failed (.refused name r.status r.reason)
  else match (readBody n max r).1 with
    | .error fault => fault.outcome name max
    | .ok content => .page {
        status := r.status
        content := some content
        etag := r.etag
        lastModified := r.lastModified }

/-- Asks the client of the network. -/
def ask (call : Call) : Job World (Except Breakage Response) :=
  Job.consult fun w =>
    (w.network.ask call).zoom (·.network.sent) fun sent w =>
      { w with network := { w.network with sent } }

/-- One exchange without a deadline. -/
def fetchOnce (name url : String) (headers : List (String × Json)) : Job World Outcome :=
  Job.consult fun w => do
    match ← ask { url, headers, timeout := w.settings.delay .fetchTimeout } with
    | .ok response => Job.ask fun w => judge w.network name (w.settings.count .maxSize) response
    | .error cause => return cause.outcome

/-- One attempt, given up at the deadline of the settings. -/
def attempt (name url : String) (headers : List (String × Json)) : Job World Outcome :=
  Job.consult fun w => do
    match ← (fetchOnce name url headers).withinLimit (w.settings.delay .fetchTimeout).millis? with
    | some outcome => return outcome
    | none => Job.ask fun w => .late (w.settings.delay .fetchTimeout)

end LuaAudit.Fetch
