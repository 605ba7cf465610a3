import LuaAudit.Text.Hex
import LuaAudit.Text.Line
import LuaAudit.Text.Quoted

/-!
# Hosts in brackets

A host between brackets in a URL is an IPv6 address, or an address of a future version that starts
with `v`.

* `isIPv4`, `isIPv6` decide the two address forms;
* `checkBracketed` says what is wrong with a host in brackets.
-/

namespace LuaAudit.Location

/-- What is wrong with a URL. -/
inductive UrlError where
  | unmatchedBracket
  | futureAddress
  | noAddress (host : String)
  | bracketedIPv4
  | confusable (netloc : String)
  deriving DecidableEq, Repr

/-- The wording of a URL error. -/
def UrlError.message : UrlError → String
  | .unmatchedBracket => "Invalid IPv6 URL"
  | .futureAddress => "IPvFuture address is invalid"
  | .noAddress host => Text.quote host ++ " does not appear to be an IPv4 or IPv6 address"
  | .bracketedIPv4 => "An IPv4 address cannot be in brackets"
  | .confusable netloc => "netloc '" ++ netloc ++
      "' contains invalid characters under NFKC normalization"

/-- A decimal number from 0 to 255 without leading zero. -/
def isOctet (cs : List Char) : Bool :=
  !cs.isEmpty && cs.length ≤ 3 && cs.all Char.isDigit && (cs.length == 1 || cs.head? != some '0') &&
    cs.foldl (fun n d => 10 * n + (d.toNat - 48)) 0 ≤ 255

/-- Four octets between dots. -/
def isIPv4 (cs : List Char) : Bool :=
  let octets := Text.splitOn '.' cs
  octets.length == 4 && octets.all isOctet

/-- One to four hexadecimal digits. -/
def isHextet (cs : List Char) : Bool :=
  !cs.isEmpty && cs.length ≤ 4 && cs.all fun c => (Text.hexValue? c).isSome

/-- The groups of an IPv6 address, an IPv4 address at the end counting as two. -/
def hextets? (cs : List Char) : Option (List (List Char)) :=
  let groups := Text.splitOn ':' cs
  let last := groups.getLastD []
  if last.contains '.' then
    if isIPv4 last then some (groups.dropLast ++ [['0'], ['0']]) else none
  else some groups

/-- Whether groups between colons form an address: eight of them, or fewer with one empty
    stretch. -/
def isAddress (groups : List (List Char)) : Bool :=
  let inner := groups.dropLast.drop 1
  let empties := (inner.filter (·.isEmpty)).length
  if groups.length < 3 || 9 < groups.length then false
  else if empties = 0 then groups.length == 8 && groups.all isHextet
  else if empties = 1 then
    let before := groups.take (1 + (inner.takeWhile (!·.isEmpty)).length)
    let behind := groups.drop (before.length + 1)
    let high := if before == [[]] then [] else before
    let low := if behind == [[]] then [] else behind
    high.all isHextet && low.all isHextet && high.length + low.length < 8
  else false

/-- An IPv6 address, with an optional zone after a percent sign. -/
def isIPv6 (cs : List Char) : Bool :=
  let address := cs.takeWhile (· != '%')
  let zoneOk := match cs.dropWhile (· != '%') with
    | [] => true
    | _ :: zone => !zone.isEmpty && !zone.contains '%'
  zoneOk && (hextets? address).any isAddress

/-- `v`, hexadecimal digits, a dot and something more, on one line. -/
def isFuture (cs : List Char) : Bool :=
  let isHex (c : Char) : Bool := (Text.hexValue? c).isSome
  let rest := cs.drop 1
  !(rest.takeWhile isHex).isEmpty && match rest.dropWhile isHex with
    | '.' :: tail => !tail.isEmpty && !tail.contains '\n'
    | _ => false

/-- Checks a host that stands in brackets. -/
def checkBracketed (host : List Char) : Except UrlError Unit :=
  if host.head? == some 'v' then
    if isFuture host then .ok () else .error .futureAddress
  else if isIPv4 host then .error .bracketedIPv4
  else if isIPv6 host then .ok ()
  else .error (.noAddress (String.ofList host))

end LuaAudit.Location
