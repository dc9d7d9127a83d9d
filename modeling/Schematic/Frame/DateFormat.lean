import Schematic.Frame.Cast

/-!
# Reading dates from text

A date or date-time column given texts reads them in two passes, as the host's date parser does
when no format is given.

* *Inference* (`DateFormat.infer`) finds what the column holds from its first text that looks
  like a date at all (`DateFormat.kindOf`): a date with the day first or the year first, a
  date-time of either order, or a date-time with a UTC offset, tried in that order; a date
  column only looks at dates. Inference reads leniently (`DateFormat.Loose`): a number may follow
  blanks, a year has at most four digits unless it is signed, and any run of blanks, even none,
  may stand between date and time. A column none of whose texts looks like a date is a fault of
  its own.
* *Reading* (`DateFormat.read`) then takes every text by the strict shape of that kind
  (`DateFormat.Strict`): a year of exactly four digits, other numbers of one or two digits, `-`,
  `/` or `.` between the parts of the date, `T` or one space before the time, colons between the
  parts of the time optional, and one to nine digits of a fraction of a second. A time with an
  offset has two digits in each of its parts. Texts that do not fit are a fault that counts and
  lists them.
* Readers (`DateFormat.Reader`) give every way they can take the front of a text, the preferred
  way first, so a text is read by its first reading that takes all of it and names a moment that
  exists.
* A date-time column read with offsets holds the UTC instants, marked as UTC; a date-time column
  of dates holds their midnights.
-/

namespace Schematic

namespace DateFormat

/-- The fields a text gives; the offset is in seconds east of UTC. -/
structure Fields where
  year : Option Int := none
  month : Option Nat := none
  day : Option Nat := none
  hour : Option Nat := none
  minute : Option Nat := none
  second : Option Nat := none
  nanos : Option Nat := none
  offset : Option Int := none
  deriving Inhabited

/-- A numbered part of a date or a time of day. -/
inductive Part where
  | year
  | month
  | day
  | hour
  | minute
  | second

/-- The fields with one part set. -/
def Fields.put (f : Fields) : Part → Nat → Fields
  | .year, v => { f with year := some (v : Int) }
  | .month, v => { f with month := some v }
  | .day, v => { f with day := some v }
  | .hour, v => { f with hour := some v }
  | .minute, v => { f with minute := some v }
  | .second, v => { f with second := some v }

/-- Whitespace as the parser knows it: the Unicode white space characters. -/
def isBlank (c : Char) : Bool :=
  let n := c.toNat
  (9 ≤ n && n ≤ 13) || n == 32 || n == 0x85 || n == 0xA0 || n == 0x1680 ||
    (0x2000 ≤ n && n ≤ 0x200A) || n == 0x2028 || n == 0x2029 || n == 0x202F || n == 0x205F ||
    n == 0x3000

/-- Leading whitespace dropped. -/
def trimBlank (cs : List Char) : List Char := cs.dropWhile isBlank

/-- Between `least` and `most` leading digits, with their value and the characters after. -/
def digits (least most : Nat) (cs : List Char) : Option (Nat × List Char) :=
  let ds := (cs.takeWhile Char.isDigit).take most
  if ds.length < least then none else some (Cell.digitValue ds, cs.drop ds.length)

/-- A year: a sign and any number of digits, or at most four digits. -/
def yearOf (cs : List Char) : Option (Int × List Char) :=
  match cs with
  | '-' :: r => (digits 1 r.length r).map fun (v, r) => (-(v : Int), r)
  | '+' :: r => (digits 1 r.length r).map fun (v, r) => ((v : Int), r)
  | r => (digits 1 4 r).map fun (v, r) => ((v : Int), r)

/-- The digits of a fraction after its point, as nanoseconds: at least one digit, nine read and
any further ones skipped. -/
def nanosOf (cs : List Char) : Option (Nat × List Char) := do
  let (v, r) ← digits 1 9 cs
  let read := cs.length - r.length
  return (v * Nat.pow 10 (9 - read), r.dropWhile Char.isDigit)

/-- An offset's sign, hours and minutes, in seconds. After the hours, colons and blanks are
skipped; then come two digits of minutes, or, when minutes may be left out, the end of the
text. -/
def signedOffset (minutesNeeded : Bool) (cs : List Char) : Option (Int × List Char) := do
  let (negative, cs) ← match cs with
    | '+' :: r => some (false, r)
    | '-' :: r => some (true, r)
    | '−' :: r => some (true, r)
    | _ => none
  let (hours, cs) ← match cs with
    | a :: b :: r => if a.isDigit && b.isDigit then some (Cell.digitValue [a, b], r) else none
    | _ => none
  let cs := cs.dropWhile fun c => c == ':' || isBlank c
  let (minutes, cs) ← match cs with
    | a :: b :: r =>
      if a.isDigit && b.isDigit && a.toNat - 48 ≤ 5 then some (Cell.digitValue [a, b], r)
      else none
    | [_] => none
    | [] => if minutesNeeded then none else some (0, [])
  let seconds : Int := (hours * 3600 + minutes * 60 : Nat)
  return (if negative then -seconds else seconds, cs)

/-- Whether a year, which may be zero or negative, is a leap year. -/
def leapYear (y : Int) : Bool := y % 4 == 0 && (y % 100 != 0 || y % 400 == 0)

/-- Days since 1970-01-01 of a year, month and day that exist in the proleptic Gregorian
calendar, within the years the parser knows. -/
def daysOf (y : Int) (m d : Nat) : Option Int :=
  let length := if m == 2 then (if leapYear y then 29 else 28)
    else if m == 4 || m == 6 || m == 9 || m == 11 then 30 else 31
  if y < -262143 || y > 262142 || m < 1 || m > 12 || d < 1 || d > length then none
  else
    let yy := if m ≤ 2 then y - 1 else y
    let era := yy.fdiv 400
    let yoe := yy - era * 400
    let mp : Int := if m > 2 then (m : Int) - 3 else (m : Int) + 9
    let doy := (153 * mp + 2) / 5 + (d : Int) - 1
    some (era * 146097 + yoe * 365 + yoe / 4 - yoe / 100 + doy - 719468)

namespace Fields

/-- The date of the fields, as days since 1970-01-01. -/
def days? (f : Fields) : Option Int := do
  daysOf (← f.year) (← f.month) (← f.day)

/-- The naive date-time of the fields, in microseconds since 1970-01-01: hour and minute are
needed, a second defaults to zero and may be a leap second. -/
def micros? (f : Fields) : Option Int := do
  let days ← f.days?
  let h ← f.hour
  let m ← f.minute
  let s := f.second.getD 0
  if h > 23 || m > 59 || s > 60 then none
  else
    let nanos := f.nanos.getD 0
    some (days * 86400000000 + (((h * 60 + m) * 60 + s) * 1000000 + nanos / 1000 : Nat))

/-- The naive date-time of the fields, or the midnight of their date when they have no time. -/
def naive? (f : Fields) : Option Int :=
  match f.hour with
  | none => f.days?.map (· * 86400000000)
  | some _ => f.micros?

/-- The UTC instant of the fields, which need an offset. -/
def instant? (f : Fields) : Option Int := do
  let offset ← f.offset
  return (← f.micros?) - offset * 1000000

end Fields

/-- Every way a reader can take the front of a text, each with the fields it has read and the
characters left over, the preferred way first. -/
abbrev Reader := Fields → List Char → List (Fields × List Char)

namespace Reader

/-- Reads nothing. -/
def done : Reader := fun f cs => [(f, cs)]

/-- The readers one after another. -/
def seq : List Reader → Reader
  | [] => done
  | a :: rest => fun f cs => (a f cs).flatMap fun (f, r) => seq rest f r

/-- The ways of every reader, those of an earlier reader first. -/
def first (rs : List Reader) : Reader := fun f cs => rs.flatMap fun a => a f cs

/-- A reader, or nothing at all; reading is preferred. -/
def opt (a : Reader) : Reader := first [a, done]

/-- One character that `p` accepts. -/
def char (p : Char → Bool) : Reader := fun f cs =>
  match cs with
  | c :: r => if p c then [(f, r)] else []
  | [] => []

/-- A colon. -/
def colon : Reader := char (· == ':')

/-- One of the characters between the parts of a date. -/
def dateSeparator : Reader := char fun c => c == '-' || c == '/' || c == '.'

/-- The first moment `value` finds in a reading that takes the whole text. -/
def whole (a : Reader) (value : Fields → Option Int) (cs : List Char) : Option Int :=
  (a {} cs).findSome? fun (f, r) => if r.isEmpty then value f else none

end Reader

/-- The order of the parts of a date. -/
inductive Order where
  | dayFirst
  | yearFirst
  deriving DecidableEq

/-- What the texts of a column hold, as inference finds it. -/
inductive Kind where
  | date (o : Order)
  | naive (o : Order)
  | zoned
  deriving DecidableEq

/-! ## Lenient readers, for inference -/

namespace Loose

open Reader

/-- A number after any blanks: every digit there is up to `most`, and at least one. -/
def number (most : Nat) (part : Part) : Reader := fun f cs =>
  (digits 1 most (trimBlank cs)).toList.map fun (v, r) => (f.put part v, r)

/-- A year after any blanks: a sign and any number of digits, or at most four digits. -/
def year : Reader := fun f cs =>
  (yearOf (trimBlank cs)).toList.map fun (v, r) => ({ f with year := some v }, r)

/-- A point and the digits of a fraction of a second. -/
def fraction : Reader := fun f cs =>
  match cs with
  | '.' :: r => (nanosOf r).toList.map fun (v, r) => ({ f with nanos := some v }, r)
  | _ => []

/-- An offset after any blanks: `UTC`, `Z`, or a sign with hours and minutes. -/
def zone : Reader := fun f cs =>
  match trimBlank cs with
  | 'U' :: 'T' :: 'C' :: r | 'u' :: 't' :: 'c' :: r => [({ f with offset := some 0 }, r)]
  | 'Z' :: r | 'z' :: r => [({ f with offset := some 0 }, r)]
  | r => (signedOffset false r).toList.map fun (v, r) => ({ f with offset := some v }, r)

/-- What stands between a date and a time: `T`, `t`, or any run of blanks. -/
def between : Reader := first [char (· == 'T'), char (· == 't'), fun f cs => [(f, trimBlank cs)]]

/-- A date of the given order. -/
def date : Order → Reader
  | .dayFirst => seq [number 2 .day, dateSeparator, number 2 .month, dateSeparator, year]
  | .yearFirst => seq [year, dateSeparator, number 2 .month, dateSeparator, number 2 .day]

/-- A time of day: hours, minutes, and optionally seconds with a fraction. -/
def time : Reader :=
  seq [number 2 .hour, opt colon, number 2 .minute,
    opt (seq [opt colon, number 2 .second, opt fraction])]

/-- A text of a kind, and the moment it names. -/
def reads : Kind → List Char → Option Int
  | .date o => Reader.whole (date o) Fields.days?
  | .naive o => Reader.whole (seq [date o, between, time]) Fields.micros?
  | .zoned => Reader.whole (seq [date .yearFirst, between, time, zone]) Fields.instant?

end Loose

/-! ## Strict readers, for the texts of a column -/

namespace Strict

open Reader

/-- The leading runs of `least` to `most` digits of a text, longest first, each with the
characters after it. -/
def spans (least most : Nat) (cs : List Char) : List (List Char × List Char) :=
  let run := (cs.takeWhile Char.isDigit).length
  (List.range (most + 1 - least)).reverse.filterMap fun i =>
    if least + i ≤ run then some (cs.take (least + i), cs.drop (least + i)) else none

/-- A number of `least` to `most` digits. -/
def number (least most : Nat) (part : Part) : Reader := fun f cs =>
  (spans least most cs).map fun (ds, r) => (f.put part (Cell.digitValue ds), r)

/-- A point and one to nine digits of a fraction of a second. -/
def fraction : Reader := fun f cs =>
  match cs with
  | '.' :: r => (spans 1 9 r).map fun (ds, r) =>
    ({ f with nanos := some (Cell.digitValue ds * Nat.pow 10 (9 - ds.length)) }, r)
  | _ => []

/-- Two digits and their value. -/
def twoDigits : List Char → Option (Nat × List Char)
  | a :: b :: r => if a.isDigit && b.isDigit then some (Cell.digitValue [a, b], r) else none
  | _ => none

/-- The minutes of an offset after its sign: two digits of hours and, after an optional colon,
two of minutes; the minutes may be left out. -/
def offsetMinutes (cs : List Char) : List (Nat × List Char) :=
  match twoDigits cs with
  | none => []
  | some (h, r) =>
    let afterColon := match r with
      | ':' :: rest => rest
      | rest => rest
    ((twoDigits afterColon).toList.map fun (m, rest) => (h * 60 + m, rest)) ++ [(h * 60, r)]

/-- An offset: `Z`, or a sign and the hours and minutes east or west of UTC. -/
def zone : Reader := fun f cs =>
  let marked (negative : Bool) (minutes : Nat) (r : List Char) : Fields × List Char :=
    let seconds : Int := (minutes * 60 : Nat)
    ({ f with offset := some (if negative then -seconds else seconds) }, r)
  match cs with
  | 'Z' :: r => [marked false 0 r]
  | c :: r =>
    if c == '+' || c == '-' then (offsetMinutes r).map fun (m, r) => marked (c == '-') m r
    else []
  | [] => []

/-- `T` or one space, between a date and a time. -/
def between : Reader := char fun c => c == 'T' || c == ' '

/-- A date of the given order, its year of four digits. -/
def date : Order → Reader
  | .dayFirst => seq [number 1 2 .day, dateSeparator, number 1 2 .month, dateSeparator,
      number 4 4 .year]
  | .yearFirst => seq [number 4 4 .year, dateSeparator, number 1 2 .month, dateSeparator,
      number 1 2 .day]

/-- A time of day whose parts have `least` to two digits: hours, minutes, and optionally
seconds with a fraction. -/
def time (least : Nat) : Reader :=
  seq [number least 2 .hour, opt colon, number least 2 .minute,
    opt (seq [opt colon, number least 2 .second, opt fraction])]

/-- A text of a kind read for a date column (`dates`) or a date-time column, and the moment it
names: days for a date column, microseconds otherwise, UTC instants for the zoned kind. -/
def reads (dates : Bool) : Kind → List Char → Option Int
  | .date o =>
    if dates then Reader.whole (date o) Fields.days?
    else Reader.whole (seq [date o, opt (seq [between, time 1])]) Fields.naive?
  | .naive o => Reader.whole (seq [date o, opt (seq [between, time 1])]) Fields.naive?
  | .zoned => Reader.whole (seq [date .yearFirst, between, time 2, zone]) Fields.instant?

end Strict

/-- The kinds inference tries, in order: dates, and for a date-time column then date-times and
date-times with an offset. -/
def kinds (dates : Bool) : List Kind :=
  [.date .dayFirst, .date .yearFirst] ++
    (if dates then [] else [.naive .dayFirst, .naive .yearFirst, .zoned])

/-- The kind of a text, for a date column (`dates`) or a date-time column. -/
def infer (dates : Bool) (s : String) : Option Kind :=
  (kinds dates).find? fun k => (Loose.reads k s.toList).isSome

/-- A text of a column of a kind read strictly. -/
def read (dates : Bool) (k : Kind) (s : String) : Option Int :=
  Strict.reads dates k s.toList

/-- The kind of the first text of the cells that has one. -/
def kindOf (dates : Bool) : List Cell → Option Kind
  | [] => none
  | .text s :: cs => (infer dates s).orElse fun _ => kindOf dates cs
  | _ :: cs => kindOf dates cs

/-- Texts of a column named `name` read as the dates or date-times of `target`, with the type
they end up with. Missing cells stay missing. -/
def column (n : Naming) (name : String) (target : ColumnType) (cells : List Cell) :
    Except Fault (ColumnType × List Cell) := do
  let dates := target == .date
  if cells.all Cell.isNull then
    return (if dates then .date else .datetime false, cells.map fun _ => .null)
  let some k := kindOf dates cells | throw .dateFormat
  let result : ColumnType := if dates then .date else .datetime (k = .zoned)
  let made : Int → Cell := match result with
    | .date => Cell.date
    | .datetime utc => (Cell.datetime · utc)
    | _ => fun _ => .null
  let read := cells.map fun c => match c with
    | .text s => (read dates k s).map made
    | _ => some .null
  let failed := (cells.zip read).filterMap fun (c, r) => if r.isNone then some c else none
  if !failed.isEmpty then
    throw (.conversionFailed "str" result.shortName name failed.length cells.length
      (Cell.listText (Cell.displays n failed)))
  return (result, read.map (·.getD .null))

end DateFormat

end Schematic
