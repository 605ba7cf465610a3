import LuaAudit.Location.Host
import LuaAudit.Location.Path
import LuaAudit.Location.Percent

/-!
# URLs

A documentation source is named by a URL or by a path.

* `Url.split` cuts a text into scheme, network location and path;
* `isLocal` tells whether a text names a file, `localPath` which one;
* `isFetchable` tells whether a text is an absolute web address with a host;
* `fileUri` names a file by a URL.
-/

namespace LuaAudit.Location

/-- The parts of a URL. -/
structure Url where
  scheme : List Char
  netloc : List Char
  path : List Char
  deriving DecidableEq, Repr

namespace Url

/-- A character that a scheme may hold. -/
def isSchemeChar (c : Char) : Bool := c.isAlphanum || c == '+' || c == '-' || c == '.'

/-- The scheme of a text, in lower case and empty when there is none, and what follows it. -/
def takeScheme (cs : List Char) : List Char × List Char :=
  let scheme := cs.takeWhile (· != ':')
  match cs.dropWhile (· != ':') with
  | ':' :: rest =>
    if scheme.head?.any Char.isAlpha && scheme.all isSchemeChar then
      (scheme.map Char.toLower, rest)
    else ([], cs)
  | _ => ([], cs)

/-- A character that ends a network location. -/
def endsNetloc (c : Char) : Bool := c == '/' || c == '?' || c == '#'

/-- The network location after two slashes, and what follows it. -/
def takeNetloc : List Char → List Char × List Char
  | '/' :: '/' :: rest => (rest.takeWhile (!endsNetloc ·), rest.dropWhile (!endsNetloc ·))
  | cs => ([], cs)

/-- Characters that look like a delimiter once they are normalised. -/
def isConfusable (c : Char) : Bool :=
  [0x2047, 0x2048, 0x2049, 0x2100, 0x2101, 0x2105, 0x2106, 0x2A74, 0xFE13, 0xFE16, 0xFE55, 0xFE56,
    0xFE5F, 0xFE6B, 0xFF03, 0xFF0F, 0xFF1A, 0xFF1F, 0xFF20].contains c.toNat

/-- The text between the first opening bracket and the next closing one. -/
def bracketed (netloc : List Char) : List Char :=
  ((netloc.dropWhile (· != '[')).drop 1).takeWhile (· != ']')

/-- Checks a network location: brackets come in pairs around an address, and no character hides a
    delimiter. -/
def checkNetloc (netloc : List Char) : Except UrlError Unit := do
  if netloc.contains '[' != netloc.contains ']' then throw .unmatchedBracket
  if netloc.contains '[' then checkBracketed (bracketed netloc)
  if netloc.any isConfusable then throw (.confusable (String.ofList netloc))

/-- Cuts a text into the parts of a URL.  Leading controls and spaces, tabs and line ends do not
    count. -/
def split (s : String) : Except UrlError Url := do
  let cs := (s.toList.dropWhile fun c => c.toNat ≤ 0x20).filter fun c =>
    c != '\t' && c != '\r' && c != '\n'
  let (scheme, rest) := takeScheme cs
  let (netloc, rest) := takeNetloc rest
  checkNetloc netloc
  return ⟨scheme, netloc, rest.takeWhile fun c => c != '?' && c != '#'⟩

/-- What follows the last occurrence of a character, or all when there is none. -/
def afterLast (mark : Char) (cs : List Char) : List Char :=
  (cs.reverse.takeWhile (· != mark)).reverse

/-- The host of a network location, without user and port. -/
def host (netloc : List Char) : List Char :=
  let info := afterLast '@' netloc
  if info.contains '[' then bracketed info else info.takeWhile (· != ':')

end Url

/-- Whether a text names a file: no scheme, the file scheme, or a drive letter. -/
def isLocal (s : String) : Except UrlError Bool := do
  let url ← Url.split s
  return url.scheme.isEmpty || url.scheme == "file".toList || url.scheme.length == 1

/-- What keeps a text from naming a path. -/
inductive PathError where
  | url (cause : UrlError)
  | home (cause : HomeError)
  deriving DecidableEq, Repr

/-- The wording of a path error. -/
def PathError.message : PathError → String
  | .url cause => cause.message
  | .home cause => cause.message

/-- Puts a home directory in place of a leading `~` or `~user`. -/
def expand (homes : Homes) (p : Path) : Except PathError Path :=
  match p.expandUser homes with
  | .ok q => .ok q
  | .error e => .error (.home e)

/-- The path that a text names: the decoded path of a file URL, or the text itself. -/
def localPath (homes : Homes) (s : String) : Except PathError Path :=
  match Url.split s with
  | .error e => .error (.url e)
  | .ok url =>
    if url.scheme = "file".toList then
      expand homes (.parse (String.ofList (Percent.decode url.path)))
    else expand homes (.parse s)

/-- An absolute web address with a host. -/
def isFetchable (s : String) : Bool :=
  match Url.split s with
  | .ok url =>
    (url.scheme == "http".toList || url.scheme == "https".toList) && !(Url.host url.netloc).isEmpty
  | .error _ => false

/-- The URL of a file. -/
def fileUri (p : Path) : String :=
  "file://" ++ String.ofList (Percent.encode Percent.isPathSafe p.text.toList)

end LuaAudit.Location
