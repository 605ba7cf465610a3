import LuaAudit.Number.Real
import LuaAudit.Text.Quoted

/-!
# Timestamps

A date of the Gregorian calendar with a time of day and, if known, the distance from universal time.

* `Timestamp.parse` reads the extended and the basic ISO 8601 forms, week dates, and fractions of a
  second cut to millionths;
* `Timestamp.text` writes the extended form;
* `Timestamp.ofSeconds` is the moment so many seconds after the start of year 1, universal time.
-/

namespace LuaAudit.Docs

/-! ### The calendar -/

/-- A year with a 29th of February. -/
def isLeap (year : Nat) : Bool := year % 4 == 0 && (year % 100 != 0 || year % 400 == 0)

/-- The number of days of a month. -/
def daysInMonth (year month : Nat) : Nat :=
  if month = 2 then (if isLeap year then 29 else 28)
  else if [4, 6, 9, 11].contains month then 30 else 31

/-- The number of days before a year. -/
def daysBeforeYear (year : Nat) : Nat :=
  let y := year - 1
  y * 365 + y / 4 - y / 100 + y / 400

/-- The months and days of a year, from a day counted from zero. -/
def monthAndDay (year : Nat) : (months : List Nat) → (day : Nat) → Nat × Nat
  | [], day => (12, day + 1)
  | m :: ms, day =>
    if day < daysInMonth year m then (m, day + 1)
    else monthAndDay year ms (day - daysInMonth year m)

/-- Year, month and day of the day so many days after the first of January of year 1. -/
def dateOfDays (days : Nat) : Nat × Nat × Nat :=
  let n400 := days / 146097
  let r400 := days % 146097
  let n100 := min (r400 / 36524) 3
  let r100 := r400 - n100 * 36524
  let n4 := r100 / 1461
  let r4 := r100 % 1461
  let n1 := min (r4 / 365) 3
  let year := n400 * 400 + n100 * 100 + n4 * 4 + n1 + 1
  let (month, day) := monthAndDay year [1, 2, 3, 4, 5, 6, 7, 8, 9, 10, 11, 12] (r4 - n1 * 365)
  (year, month, day)

/-- How many days after the first of January of year 1 the first week of a year starts; the week
    with the first Thursday is the first. -/
def firstWeek (year : Nat) : Int :=
  let first : Int := daysBeforeYear year
  let weekday := first % 7
  if weekday ≤ 3 then first - weekday else first - weekday + 7

/-- Whether a year has a week of a number. -/
def hasWeek (year week : Nat) : Bool :=
  let weekday := daysBeforeYear year % 7
  (1 ≤ week && week ≤ 52) || (week == 53 && (weekday == 3 || (weekday == 2 && isLeap year)))

/-! ### Reading -/

/-- A date, a time of day and the distance from universal time in millionths of a second. -/
structure Timestamp where
  year : Nat
  month : Nat
  day : Nat
  hour : Nat := 0
  minute : Nat := 0
  second : Nat := 0
  micro : Nat := 0
  offset : Option Int := none
  deriving DecidableEq, Repr

/-- Why a text is no timestamp. -/
inductive TimestampError where
  | malformed (text : String)
  | offset (micros : Int)
  | year (n : Nat)
  | month
  | day
  | hour
  | minute
  | second
  deriving DecidableEq, Repr

/-- A length of time by its days, seconds and millionths. -/
def durationText (micros : Int) : String :=
  let days := micros / 86400000000
  let rest := micros % 86400000000
  let part (name : String) (n : Int) : List String :=
    if n = 0 then [] else [name ++ "=" ++ toString n]
  match part "days" days ++ part "seconds" (rest / 1000000) ++
      part "microseconds" (rest % 1000000) with
  | [] => "datetime.timedelta(0)"
  | parts => "datetime.timedelta(" ++ ", ".intercalate parts ++ ")"

/-- The wording of a timestamp error. -/
def TimestampError.message : TimestampError → String
  | .malformed text => "Invalid isoformat string: " ++ Text.quote text
  | .offset micros => "offset must be a timedelta strictly between -timedelta(hours=24) and " ++
      "timedelta(hours=24), not " ++ durationText micros ++ "."
  | .year n => "year " ++ toString n ++ " is out of range"
  | .month => "month must be in 1..12"
  | .day => "day is out of range for month"
  | .hour => "hour must be in 0..23"
  | .minute => "minute must be in 0..59"
  | .second => "second must be in 0..59"

namespace Timestamp

/-- The number that exactly `n` digits at the start of a text write, and what follows them. -/
def digits? : (n : Nat) → (value : Nat) → List Char → Option (Nat × List Char)
  | 0, value, cs => some (value, cs)
  | n + 1, value, c :: cs => if c.isDigit then digits? n (10 * value + (c.toNat - 48)) cs else none
  | _ + 1, _, [] => none

/-- How many characters the date of a text takes. -/
def dateLength? (cs : List Char) : Option Nat :=
  let digitAt (i : Nat) : Bool := cs[i]?.any Char.isDigit
  if cs.length < 7 then none
  else if cs.length = 7 then some 7
  else if cs[4]? = some '-' then
    if cs[5]? = some 'W' then
      if cs[8]? = some '-' then
        if cs.length = 9 then none else if digitAt 10 then some 8 else some 10
      else some 8
    else some 10
  else if cs[4]? = some 'W' then
    let stop := 7 + ((cs.drop 7).takeWhile Char.isDigit).length
    if stop < 9 then some stop else if stop % 2 = 0 then some 7 else some 8
  else some 8

/-- A week date after its year and `W`, dashed or not. -/
def weekDate? (year : Nat) (dashed : Bool) (cs : List Char) : Option (Nat × Nat × Nat) := do
  let (week, rest) ← digits? 2 0 cs
  let day ← match rest with
    | [] => some 1
    | c :: tail =>
      if dashed then (if c = '-' then (digits? 1 0 tail).map Prod.fst else none)
      else (digits? 1 0 rest).map Prod.fst
  if year = 0 || !hasWeek year week || day < 1 || 7 < day then none
  else some (dateOfDays (firstWeek year + 7 * (week - 1 : Nat) + (day - 1 : Nat)).toNat)

/-- The date that makes up a text. -/
def date? (cs : List Char) : Option (Nat × Nat × Nat) := do
  let (year, rest) ← digits? 4 0 cs
  let dashed := rest.head? = some '-'
  let rest := if dashed then rest.drop 1 else rest
  match rest with
  | 'W' :: tail => weekDate? year dashed tail
  | _ =>
    let (month, rest) ← digits? 2 0 rest
    let rest ← if dashed then (if rest.head? = some '-' then some (rest.drop 1) else none)
      else some rest
    let (day, rest) ← digits? 2 0 rest
    if rest.isEmpty then some (year, month, day) else none

/-- A time of day: its fields, its millionths, and whether something follows it. -/
structure Clock where
  fields : List Nat
  micro : Nat
  followed : Bool

/-- Whether a character, if any, is more than an end mark. -/
def isMore (c : Option Char) : Bool := c.any fun c => c.toNat ≠ 0

/-- The millionths that the digits of a fraction write, digits beyond the sixth dropped. -/
def fraction? (next : Option Char) (fields : List Nat) (cs : List Char) : Option Clock := do
  let n := min 6 cs.length
  let (value, rest) ← digits? n 0 cs
  let rest := rest.dropWhile Char.isDigit
  return ⟨fields.reverse, value * Nat.pow 10 (6 - n), isMore (rest.head?.or next)⟩

/-- Up to `left` further fields of two digits, between colons throughout or nowhere, and then a
    fraction.  `next` is the character after the text. -/
def clock? (next : Option Char) :
    (left : Nat) → (colons : Option Bool) → (fields : List Nat) → List Char → Option Clock
  | 0, _, fields, cs => fraction? next fields cs
  | left + 1, colons, fields, cs =>
    match digits? 2 0 cs with
    | none => none
    | some (n, rest) =>
      let fields := n :: fields
      match rest with
      | [] => some ⟨fields.reverse, 0, isMore next⟩
      | [c] => some ⟨fields.reverse, 0, isMore (some c)⟩
      | c :: tail =>
        let colons := colons.getD (c = ':')
        if colons && c = ':' then clock? next left (some colons) fields tail
        else if c = '.' || c = ',' then fraction? next fields tail
        else if !colons then clock? next left (some colons) fields rest
        else none

/-- A mark that starts the distance from universal time. -/
def isZoneMark (c : Char) : Bool := c == '+' || c == '-' || c == 'Z'

/-- The distance of a zone, in millionths of a second, from the text after its sign. -/
def zone? (negative : Bool) (cs : List Char) : Option Int := do
  let c ← clock? none 3 none [] cs
  if c.followed then none
  else
    let seconds := c.fields.getD 0 0 * 3600 + c.fields.getD 1 0 * 60 + c.fields.getD 2 0
    let micros : Int := if seconds = 0 then 0 else seconds * 1000000 + c.micro
    some (if negative then -micros else micros)

/-- The time of day and the zone that make up a text. -/
def timeOfDay? (cs : List Char) : Option (Clock × Option Int) := do
  let zone := cs.dropWhile (!isZoneMark ·)
  let c ← clock? zone.head? 3 none [] (cs.takeWhile (!isZoneMark ·))
  match zone with
  | [] => if c.followed then none else some (c, none)
  | ['Z'] => some (c, some 0)
  | 'Z' :: mark :: _ => if mark.toNat = 0 then some (c, some 0) else none
  | sign :: rest => (zone? (sign == '-') rest).map fun micros => (c, some micros)

/-- The fields of a timestamp, not yet checked. -/
def read? (cs : List Char) : Option Timestamp := do
  let n ← dateLength? cs
  let (year, month, day) ← date? (cs.take n)
  match cs.drop n with
  | [] => if cs.length < n then none else some { year, month, day }
  | _ :: time =>
    let (c, offset) ← timeOfDay? time
    return { year, month, day, hour := c.fields.getD 0 0, minute := c.fields.getD 1 0,
             second := c.fields.getD 2 0, micro := c.micro, offset }

/-- A timestamp whose fields are in range. -/
def check (t : Timestamp) : Except TimestampError Timestamp :=
  if t.offset.any fun m => 86400000000 ≤ m.natAbs then .error (.offset (t.offset.getD 0))
  else if t.year < 1 ∨ 9999 < t.year then .error (.year t.year)
  else if t.month < 1 ∨ 12 < t.month then .error .month
  else if t.day < 1 ∨ daysInMonth t.year t.month < t.day then .error .day
  else if 23 < t.hour then .error .hour
  else if 59 < t.minute then .error .minute
  else if 59 < t.second then .error .second
  else .ok t

/-- Reads a timestamp. -/
def parse (s : String) : Except TimestampError Timestamp :=
  match read? s.toList with
  | some t => t.check
  | none => .error (.malformed s)

/-! ### Writing -/

/-- A number with at least `width` digits. -/
def padded (width n : Nat) : String :=
  let ds := Number.decimal n
  String.ofList (Number.zeros (width - ds.length) ++ ds)

/-- A distance from universal time. -/
def zoneText (micros : Int) : String :=
  let n := micros.natAbs
  let seconds := n / 1000000
  (if micros < 0 then "-" else "+") ++ padded 2 (seconds / 3600) ++ ":" ++
    padded 2 (seconds / 60 % 60) ++
    (if n % 60000000 = 0 then "" else ":" ++ padded 2 (seconds % 60)) ++
    (if n % 1000000 = 0 then "" else "." ++ padded 6 (n % 1000000))

/-- Writes a timestamp: seconds always, millionths and zone where there are any. -/
def text (t : Timestamp) : String :=
  padded 4 t.year ++ "-" ++ padded 2 t.month ++ "-" ++ padded 2 t.day ++ "T" ++
    padded 2 t.hour ++ ":" ++ padded 2 t.minute ++ ":" ++ padded 2 t.second ++
    (if t.micro = 0 then "" else "." ++ padded 6 t.micro) ++
    (match t.offset with
      | some micros => zoneText micros
      | none => "")

/-- The moment so many seconds after the start of year 1, universal time. -/
def ofSeconds (n : Nat) : Timestamp :=
  let (year, month, day) := dateOfDays (n / 86400)
  { year, month, day, hour := n / 3600 % 24, minute := n / 60 % 60, second := n % 60,
    offset := some 0 }

end Timestamp

end LuaAudit.Docs
