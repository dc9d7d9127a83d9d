/-!
# Calendar dates and times of day

Dates of the proleptic Gregorian calendar and date-times with an optional fixed offset from UTC.
A date-time without an offset is *naive*; with one it is *aware* and names an instant.

* Two dates, or two naive date-times, are ordered by their fields.
* Two aware date-times are ordered by the instants they name, whatever their offsets.
* A naive and an aware date-time are equal to nothing of the other kind and have no order:
  `DateTime.compare?` answers `none` for them.

Text follows ISO 8601: `2020-01-01`, `2020-01-01T12:00:00+02:00`, `2020-01-01T12:00:00.5`; the
*plain* text of a date-time puts a blank in place of the `T`.
-/

namespace Schematic

/-- A calendar date. -/
structure Date where
  year : Nat
  month : Nat
  day : Nat
  deriving Repr, DecidableEq, Inhabited

/-- A date with a time of day and, when aware, an offset from UTC in microseconds (east of
UTC is positive). An aware date-time read back from a frame names its zone, UTC, instead of
carrying a fixed offset (`named`); the two differ only in how they are shown. -/
structure DateTime where
  date : Date
  hour : Nat
  minute : Nat
  second : Nat
  micro : Nat
  offset : Option Int
  named : Bool
  deriving Repr, DecidableEq, Inhabited

namespace Date

/-- Days in a month of a year, leap years included. -/
def monthLength (year month : Nat) : Nat :=
  if month = 2 then
    if (year % 4 = 0 ∧ year % 100 ≠ 0) ∨ year % 400 = 0 then 29 else 28
  else if month = 4 ∨ month = 6 ∨ month = 9 ∨ month = 11 then 30
  else 31

/-- A date exists when its year is 1 to 9999 and its month and day fit the calendar. -/
def valid (d : Date) : Bool :=
  1 ≤ d.year && d.year ≤ 9999 && 1 ≤ d.month && d.month ≤ 12 && 1 ≤ d.day &&
    d.day ≤ monthLength d.year d.month

/-- Days since 1970-01-01 of a Gregorian date (negative before it). -/
def epochDay (d : Date) : Int :=
  let y : Int := if d.month ≤ 2 then (d.year : Int) - 1 else d.year
  let era := y.fdiv 400
  let yoe := y - era * 400
  let m : Int := d.month
  let mp := if m > 2 then m - 3 else m + 9
  let doy := (153 * mp + 2) / 5 + (d.day : Int) - 1
  let doe := yoe * 365 + yoe / 4 - yoe / 100 + doy
  era * 146097 + doe - 719468

/-- The year, month and day `z` days after 1970-01-01 (before it when negative), for a year of
any sign. -/
def civil (z : Int) : Int × Nat × Nat :=
  let z := z + 719468
  let era := z.fdiv 146097
  let doe := z - era * 146097
  let yoe := (doe - doe / 1460 + doe / 36524 - doe / 146096) / 365
  let doy := doe - (365 * yoe + yoe / 4 - yoe / 100)
  let mp := (5 * doy + 2) / 153
  let day := doy - (153 * mp + 2) / 5 + 1
  let month := if mp < 10 then mp + 3 else mp - 9
  let year := yoe + era * 400 + (if month ≤ 2 then 1 else 0)
  (year, month.toNat, day.toNat)

/-- The date `z` days after 1970-01-01 (before it when negative). -/
def ofEpochDay (z : Int) : Date :=
  let (year, month, day) := civil z
  ⟨year.toNat, month, day⟩

/-- Dates in calendar order. -/
def compare (a b : Date) : Ordering :=
  (Ord.compare a.year b.year).then ((Ord.compare a.month b.month).then (Ord.compare a.day b.day))

end Date

namespace DateTime

/-- Microseconds since the start of its own day. -/
def dayMicros (t : DateTime) : Int :=
  (((t.hour * 60 + t.minute) * 60 + t.second) * 1000000 + t.micro : Nat)

/-- The instant named by the fields read as UTC, in microseconds since the epoch. -/
def wallMicros (t : DateTime) : Int :=
  t.date.epochDay * 86400000000 + t.dayMicros

/-- The instant of an aware date-time; a naive one is read as if it were UTC. -/
def instant (t : DateTime) : Int :=
  t.wallMicros - t.offset.getD 0

/-- Whether the date-time carries an offset. -/
def aware (t : DateTime) : Bool := t.offset.isSome

/-- The order of date-times: by fields when both are naive, by instant when both are aware,
and none between a naive and an aware one. -/
def compare? (a b : DateTime) : Option Ordering :=
  match a.offset, b.offset with
  | none, none => some (Ord.compare a.wallMicros b.wallMicros)
  | some _, some _ => some (Ord.compare a.instant b.instant)
  | _, _ => none

/-- Equality of date-times: equal fields when naive, the same instant when aware. -/
def same (a b : DateTime) : Bool :=
  a.compare? b == some .eq

/-- The naive date-time whose fields read as UTC name the instant `t` names. -/
def utc (t : DateTime) : DateTime :=
  let micros := t.instant
  let day := micros.fdiv 86400000000
  let rest := (micros - day * 86400000000).toNat
  ⟨Date.ofEpochDay day, rest / 3600000000, rest / 60000000 % 60, rest / 1000000 % 60,
    rest % 1000000, none, false⟩

/-- Midnight of a date, carrying the given offset. -/
def atMidnight (d : Date) (offset : Option Int) : DateTime :=
  ⟨d, 0, 0, 0, 0, offset, false⟩

end DateTime

namespace Calendar

/-- `n` written with at least `width` digits, padded with zeros. -/
def padded (width n : Nat) : String :=
  let s := toString n
  String.ofList (List.replicate (width - s.length) '0') ++ s

/-- `YYYY-MM-DD`. -/
def dateText (d : Date) : String :=
  padded 4 d.year ++ "-" ++ padded 2 d.month ++ "-" ++ padded 2 d.day

/-- `±HH:MM` of an offset in microseconds, with `:SS` when it has seconds and `.ffffff` when it
has microseconds. -/
def offsetText (micros : Int) : String :=
  let sign := if micros < 0 then "-" else "+"
  let u := micros.natAbs
  let seconds := u / 1000000
  let rest := u % 1000000
  let hm := sign ++ padded 2 (seconds / 3600) ++ ":" ++ padded 2 (seconds / 60 % 60)
  if seconds % 60 = 0 ∧ rest = 0 then hm
  else
    let ss := hm ++ ":" ++ padded 2 (seconds % 60)
    if rest = 0 then ss else ss ++ "." ++ padded 6 rest

/-- The date-time with `sep` between date and time, microseconds only when non-zero. -/
def dateTimeText (sep : String) (t : DateTime) : String :=
  let time := padded 2 t.hour ++ ":" ++ padded 2 t.minute ++ ":" ++ padded 2 t.second
  let frac := if t.micro = 0 then "" else "." ++ padded 6 t.micro
  let zone := match t.offset with
    | none => ""
    | some m => offsetText m
  dateText t.date ++ sep ++ time ++ frac ++ zone

/-- The ISO text of a date-time, `T` between date and time. -/
def isoText (t : DateTime) : String := dateTimeText "T" t

/-- The plain text of a date-time, a blank between date and time. -/
def plainText (t : DateTime) : String := dateTimeText " " t

/-- A span of microseconds as its constructor shows it: normalized to days, seconds below a
day and microseconds below a second (only the days may be negative), the zero parts left out. -/
def deltaShown (micros : Int) : String :=
  let day : Int := 86400000000
  let days := micros.fdiv day
  let rest := (micros - days * day).toNat
  let parts :=
    (if days = 0 then [] else ["days=" ++ toString days]) ++
    (if rest / 1000000 = 0 then [] else ["seconds=" ++ toString (rest / 1000000)]) ++
    (if rest % 1000000 = 0 then [] else ["microseconds=" ++ toString (rest % 1000000)])
  "datetime.timedelta(" ++ (if parts.isEmpty then "0" else ", ".intercalate parts) ++ ")"

end Calendar

end Schematic
