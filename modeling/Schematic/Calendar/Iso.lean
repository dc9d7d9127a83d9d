import Schematic.Calendar

/-!
# Reading ISO 8601 dates and date-times

A date is read from `YYYY-MM-DD`, `YYYYMMDD` or an ISO week date (`YYYY-Www`, `YYYY-Www-D`,
`YYYYWww`, `YYYYWwwD`); a date-time is a date, one separator character of any kind, and a
time of day `HH[:MM[:SS[.f…]]]` (or the same without colons) with an optional zone: `Z`, or a
sign and `HH[:MM[:SS[.f…]]]`. A fraction of a second keeps its first six digits.

The text is read as the bytes of its UTF-8 encoding, so a character outside ASCII stops the
reading wherever it stands, except as the separator: the first of the characters at positions
7, 8 and 10 that lies outside ASCII is read as `T`. Reading follows the text one field after
another, so a few texts outside the forms above are read too (`2020-01-01T10:10:10:5`); every
other text is refused as a whole (`Problem.form`).

A text in one of the forms may still name no date: the fields are checked after reading, the
zone first, then year, month, day, hour, minute and second, and the first that is out of range
is the problem (`Problem.year` and the rest).
-/

namespace Schematic

namespace Iso

/-- Why a text gives no date or date-time. -/
inductive Problem where
  /-- The text is in none of the accepted forms. -/
  | form
  /-- The year is outside `1..9999`. -/
  | year (year : Int)
  | month
  | day
  | hour
  | minute
  | second
  /-- The zone's offset is a day or more either way; it is given in microseconds. -/
  | offset (micros : Int)
  deriving Repr, DecidableEq, Inhabited

/-- The text of a problem with a text `shown` as the reader quotes it. -/
def Problem.message (shown : String) : Problem → String
  | .form => "Invalid isoformat string: " ++ shown
  | .year y => "year " ++ toString y ++ " is out of range"
  | .month => "month must be in 1..12"
  | .day => "day is out of range for month"
  | .hour => "hour must be in 0..23"
  | .minute => "minute must be in 0..59"
  | .second => "second must be in 0..59"
  | .offset u =>
    "offset must be a timedelta strictly between -timedelta(hours=24) and " ++
      "timedelta(hours=24), not " ++ Calendar.deltaShown u ++ "."

/-- The byte at `i`, and `0` past the end, as a terminated string reads. -/
def byteAt (bs : Array UInt8) (i : Nat) : UInt8 := bs.getD i 0

/-- Whether a byte is an ASCII digit. -/
def isDigit (b : UInt8) : Bool := 48 ≤ b && b ≤ 57

/-- The value of the `n` digits from position `i`, or none when one of them is not a digit. -/
def digits (bs : Array UInt8) (i : Nat) : Nat → Option Nat
  | 0 => some 0
  | n + 1 => do
    let v ← digits bs i n
    let b := byteAt bs (i + n)
    if isDigit b then some (v * 10 + (b.toNat - 48)) else none

/-- The number of digits in a row from position `i`. -/
def digitRun (bs : Array UInt8) (i : Nat) : Nat :=
  ((bs.toList.drop i).takeWhile isDigit).length

/-- Whether a year is a leap year. -/
def leap (year : Int) : Bool := year % 4 == 0 && (year % 100 != 0 || year % 400 == 0)

/-- The ordinal of January 1 of a year, day 1 being 0001-01-01 (year 0 has 366 days). -/
def firstOrdinal (year : Int) : Int :=
  let y := year - 1
  (if y ≥ 0 then y * 365 + y / 4 - y / 100 + y / 400 else -366) + 1

/-- The weekday of January 1 of a year, 0 for Monday, as a remainder that keeps the sign of a
negative ordinal. -/
def firstWeekday (year : Int) : Int := Int.tmod (firstOrdinal year + 6) 7

/-- The ordinal of the Monday of week 1 of an ISO year: the week holding the year's first
Thursday. -/
def weekOneMonday (year : Int) : Int :=
  let monday := firstOrdinal year - firstWeekday year
  if firstWeekday year > 3 then monday + 7 else monday

/-- The year, month and day of an ISO week date, or none when the week or the weekday does not
exist. Before 0001-01-01 no month is named, so such a date comes back with month 0. -/
def weekDate (year week day : Int) : Option (Int × Int × Int) :=
  let longYear := firstWeekday year == 3 || (firstWeekday year == 2 && leap year)
  if (week ≤ 0 || week ≥ 53) && !(week == 53 && longYear) then none
  else if day ≤ 0 || day ≥ 8 then none
  else
    let ordinal := weekOneMonday year + (week - 1) * 7 + day - 1
    if ordinal < 1 then some (1, 0, 1)
    else
      let d := Date.ofEpochDay (ordinal - 719163)
      some (d.year, d.month, d.day)

/-- The year, month and day a date spells from the start of the bytes, `len` being where the
date ends; the fields are not yet checked against the calendar. -/
def dateFields (bs : Array UInt8) (len : Nat) : Option (Int × Int × Int) := do
  let year ← digits bs 0 4
  let dash := byteAt bs 4 == 45
  let p := if dash then 5 else 4
  if byteAt bs p == 87 then
    let week ← digits bs (p + 1) 2
    let p := p + 3
    let day ← if p < len then
        if dash && byteAt bs p != 45 then none
        else digits bs (if dash then p + 1 else p) 1
      else some 1
    weekDate year week day
  else
    let month ← digits bs p 2
    let p := p + 2
    if dash && byteAt bs p != 45 then none
    else
      let day ← digits bs (if dash then p + 1 else p) 2
      some (year, month, day)

/-- Where the separator between date and time stands, told by the shape of the date; none for
a week date cut off after its second dash. -/
def separator (bs : Array UInt8) : Option Nat :=
  let len := bs.size
  if len = 7 then some 7
  else if byteAt bs 4 == 45 then
    if byteAt bs 5 == 87 then
      if len < 8 then none
      else if len > 8 && byteAt bs 8 == 45 then
        if len = 9 then none
        else if len > 10 && isDigit (byteAt bs 10) then some 8
        else some 10
      else some 8
    else some 10
  else if byteAt bs 4 == 87 then
    let idx := 7 + digitRun bs 7
    if idx < 9 then some idx
    else if idx % 2 = 0 then some 7 else some 8
  else some 8

/-- The fields of a clock: hours, minutes, seconds and microseconds. -/
structure Clock where
  hour : Nat := 0
  minute : Nat := 0
  second : Nat := 0
  micro : Nat := 0

/-- Reads a fraction of a second at `p`, the clock ending at `stop`: up to six digits count,
further digits are passed over. Also says whether anything but the end follows. -/
def fraction (bs : Array UInt8) (stop p : Nat) (c : Clock) : Option (Clock × Bool) := do
  let width := min (stop - p) 6
  let v ← digits bs p width
  let q := p + width
  some ({ c with micro := v * Nat.pow 10 (6 - width) }, byteAt bs (q + digitRun bs q) != 0)

/-- Reads component `i` of hours, minutes and seconds at `p` and the rest of the clock after
it, `colon` saying whether colons separate the components (the first separator decides). Also
says whether anything but the end follows the clock. -/
def components (bs : Array UInt8) (stop : Nat) (i p : Nat) (colon : Bool) (c : Clock) :
    Option (Clock × Bool) :=
  if i < 3 then
    match digits bs p 2 with
    | none => none
    | some v =>
      let c := if i = 0 then { c with hour := v }
        else if i = 1 then { c with minute := v } else { c with second := v }
      let ch := byteAt bs (p + 2)
      let q := p + 3
      let colon := if i = 0 then ch == 58 else colon
      if q ≥ stop then some (c, ch != 0)
      else if colon && ch == 58 then components bs stop (i + 1) q colon c
      else if ch == 46 || ch == 44 then fraction bs stop q c
      else if !colon then components bs stop (i + 1) (q - 1) colon c
      else none
  else fraction bs stop p c
termination_by 3 - i

/-- Reads a clock from `start`, ending at `stop`. -/
def clock (bs : Array UInt8) (start stop : Nat) : Option (Clock × Bool) :=
  components bs stop 0 start true {}

/-- Whether a byte starts a zone: `Z`, `+` or `-`. -/
def zoneByte (b : UInt8) : Bool := b == 90 || b == 43 || b == 45

/-- The position of the first zone byte from `start` on, or the end when there is none (one
past `start` when the time is empty). -/
def zoneAt (bs : Array UInt8) (start : Nat) : Nat :=
  let limit := max bs.size (start + 1)
  match (List.range (limit - start)).find? (fun k => zoneByte (byteAt bs (start + k))) with
  | some k => start + k
  | none => limit

/-- The clock of the time that starts at `start` and runs to the end, with its zone's offset
as seconds and microseconds of the same sign when it has a zone; none when it is malformed. -/
def timeFields (bs : Array UInt8) (start : Nat) : Option (Clock × Option (Int × Int)) := do
  let stop := bs.size
  let zone := zoneAt bs start
  let (c, more) ← clock bs start zone
  if zone = stop then
    if more then none else some (c, none)
  else if byteAt bs zone == 90 then
    if byteAt bs (zone + 1) != 0 then none else some (c, some (0, 0))
  else
    let sign : Int := if byteAt bs zone == 45 then -1 else 1
    let (z, more) ← clock bs (zone + 1) stop
    if more then none
    else some (c, some (sign * ((z.hour * 3600 + z.minute * 60 + z.second : Nat) : Int),
      sign * (z.micro : Int)))

/-- A date whose fields are checked against the calendar. -/
def checkDate (year month day : Int) : Except Problem Date :=
  if year < 1 || year > 9999 then .error (.year year)
  else if month < 1 || month > 12 then .error .month
  else if day < 1 || day > Date.monthLength year.toNat month.toNat then .error .day
  else .ok ⟨year.toNat, month.toNat, day.toNat⟩

/-- The date a text names. -/
def date? (s : String) : Except Problem Date :=
  let bs := s.toUTF8.data
  if !(bs.size == 7 || bs.size == 8 || bs.size == 10) then .error .form
  else match dateFields bs bs.size with
    | none => .error .form
    | some (y, m, d) => checkDate y m d

/-- The characters of a date-time's text with its separator read as `T` when it lies outside
ASCII. -/
def separatorAsT (cs : List Char) : List Char :=
  match [7, 8, 10].filter (· < cs.length) |>.find? (fun i => (cs.getD i ' ').toNat ≥ 128) with
  | some i => cs.set i 'T'
  | none => cs

/-- The offset of a zone given as seconds and microseconds: UTC when the seconds are zero,
else a span strictly within a day either way. -/
def zoneOffset : Int × Int → Except Problem Int
  | (0, _) => .ok 0
  | (seconds, micros) =>
    let total := seconds * 1000000 + micros
    if total ≤ -86400000000 || total ≥ 86400000000 then .error (.offset total) else .ok total

/-- The date-time a text names. -/
def dateTime? (s : String) : Except Problem DateTime := do
  if s.length < 7 then throw .form
  let bs := (String.ofList (separatorAsT s.toList)).toUTF8.data
  let some sep := separator bs | throw .form
  let some (y, m, d) := dateFields bs sep | throw .form
  let (c, zone) ← if bs.size > sep then
      match timeFields bs (sep + 1) with
      | some r => pure r
      | none => throw .form
    else pure ({}, none)
  let offset ← match zone with
    | some z => some <$> zoneOffset z
    | none => pure none
  let date ← checkDate y m d
  if c.hour > 23 then throw .hour
  if c.minute > 59 then throw .minute
  if c.second > 59 then throw .second
  return ⟨date, c.hour, c.minute, c.second, c.micro, offset, false⟩

end Iso

end Schematic
