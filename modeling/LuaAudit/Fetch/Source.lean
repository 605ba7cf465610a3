import LuaAudit.Docs.Source
import LuaAudit.Fetch.Retry

/-!
# Fetching a source

A source is a file, or a page on the web.

* `readLocal` reads a file up to the size limit;
* `fetchSource` fetches either.
-/

namespace LuaAudit.Fetch

open Location

/-- Reads a file that is not too large. -/
def readLocal (w : World) (source : String) (p : Path) : Except FetchError Page :=
  let max := w.settings.count .maxSize
  match w.files.stat p with
  | .error e => .error (.file e)
  | .ok (some (.file bytes)) =>
    if max < bytes.length then .error (.tooLarge source max)
    else match w.files.readText p with
      | .ok text => .ok { status := 200, content := some text }
      | .error e => .error (.file e)
  | .ok _ => .error (.missing source p)

/-- Reads the file that a text names. -/
def fetchLocal (w : World) (source url : String) : Except FetchError Page :=
  match localPath w.homes url with
  | .error e => .error (.path e)
  | .ok p => readLocal w source p

/-- Fetches the content of a source; `cached` is the version at hand. -/
def fetchSource (source : Docs.Source) (cached : Option Docs.Entry) :
    Job World (Except FetchError Page) :=
  match isLocal source.url with
  | .error e => return .error (.path (.url e))
  | .ok true => Job.ask fun w => fetchLocal w source.name source.url
  | .ok false =>
    if isFetchable source.url then
      Job.consult fun w =>
        fetchPage source.name source.url (conditionalHeaders w.settings cached)
    else return .error (.notWeb source.name)

end LuaAudit.Fetch
