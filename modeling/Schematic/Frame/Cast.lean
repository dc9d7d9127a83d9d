import Schematic.Frame.Cell
import Schematic.Number.Literal

/-!
# Reading cells as other types

Two ways of reading a cell as a cell of another type stand here.

*Extraction* (`Cell.integerIn?`, `Cell.float?`) reads the number a cell stands for, as rows
read numbers: a boolean is `0` or `1`, a double is truncated toward zero, a date counts its days
and a date-time its microseconds, and a text is read as an integer numeral or, failing that,
as a decimal numeral (`Cell.integerOfText?`, `Cell.floatOfText?`). An integer outside the
range asked for reads as nothing.

*Casting* (`Cell.cast`) reads a cell as a cell of a given type, or as the missing cell where
it stands for no value of that type: numbers convert exactly where they can, a number or a
boolean becomes its text, a text is read back as a number or a date, a double is truncated to
a count of days or microseconds, a date is the midnight of a date-time and a date-time the date
it falls on; a date-time marked as UTC stays marked. A structure cast to a flat type casts each
of its fields to it. Lists cast item by item and structures field
by field, in order.
-/

namespace Schematic

namespace Cell

/-- The double `1.0`. -/
def one : UInt64 := 0x3FF0000000000000

/-- The double nearest to an integer. -/
def nearest (n : Int) : UInt64 := Binary.nearest (decide (n < 0)) n.natAbs 1

/-- Whether a double is zero, of either sign. -/
def isZero (bits : UInt64) : Bool := bits &&& 0x7FFFFFFFFFFFFFFF == 0

/-- A finite double truncated toward zero. -/
def truncate (bits : UInt64) : Option Int :=
  match Binary.ofBits bits with
  | .finite negative m e =>
    let size : Nat := if 0 ≤ e then m * Nat.pow 2 e.toNat else m / Nat.pow 2 (-e).toNat
    some (if negative then -(size : Int) else size)
  | _ => none

/-- The sign of a numeral and the rest of its characters. -/
def signed : List Char → Bool × List Char
  | '-' :: cs => (true, cs)
  | '+' :: cs => (false, cs)
  | cs => (false, cs)

/-- The value of decimal digits. -/
def digitValue (cs : List Char) : Nat := cs.foldl (fun v c => v * 10 + (c.toNat - 48)) 0

/-- An integer numeral: a sign and at least one digit, with a value of at most 128 bits. -/
def integerOfText? (s : String) : Option Int :=
  let (negative, cs) := signed s.toList
  if cs.isEmpty || !cs.all Char.isDigit then none
  else
    let v : Int := if negative then -(digitValue cs : Int) else digitValue cs
    if fitsSigned 128 v then some v else none

/-- A decimal numeral read as the nearest double: a sign, digits with an optional point (with
digits on at least one side), and an optional exponent; or a sign and `inf`, `infinity` or
`nan` in any case. -/
def floatOfText? (s : String) : Option UInt64 :=
  let (negative, cs) := signed s.toList
  let word := String.ofList (cs.map Char.toLower)
  let signBit : UInt64 := if negative then 0x8000000000000000 else 0
  if word == "inf" || word == "infinity" then some (signBit ||| 0x7FF0000000000000)
  else if word == "nan" then some (signBit ||| 0x7FF8000000000000)
  else
    let (whole, wholeCount, rest) := Numeral.digitRun cs
    let (frac, fracCount, rest) := match rest with
      | '.' :: r =>
        let (f, k, r) := Numeral.digitRun r
        (f, k, r)
      | r => (0, 0, r)
    let exponent : Option Int := match rest with
      | [] => some 0
      | c :: r =>
        if c == 'e' || c == 'E' then
          let (down, r) := signed r
          let (e, k, r) := Numeral.digitRun r
          if k = 0 || !r.isEmpty then none else some (if down then -(e : Int) else e)
        else none
    if wholeCount + fracCount = 0 then none
    else exponent.map fun e =>
      Numeral.nearestBits ⟨negative, whole * Nat.pow 10 fracCount + frac, e - fracCount, true⟩

/-- A date written `Y-M-D` (or with `/` or `.` between the fields): a year of digits, a month
and a day of one or two digits, naming a day of the calendar. -/
def dateOfText? (s : String) : Option Int :=
  let parts := s.splitOn "-"
  let parts := if parts.length = 3 then parts else s.splitOn "/"
  let parts := if parts.length = 3 then parts else s.splitOn "."
  match parts.map String.toList with
  | [y, m, d] =>
    let digits (cs : List Char) : Bool := !cs.isEmpty && cs.all Char.isDigit
    if digits y && digits m && digits d && m.length ≤ 2 && d.length ≤ 2 then
      let date : Date := ⟨digitValue y, digitValue m, digitValue d⟩
      if date.valid then some date.epochDay else none
    else none
  | _ => none

/-- The integer a cell stands for, when it lies in `[lo, hi)`. -/
def integerIn? (lo hi : Int) (c : Cell) : Option Int :=
  let within (n : Int) : Option Int := if lo ≤ n && n < hi then some n else none
  match c with
  | .boolean b => within (if b then 1 else 0)
  | .integer n => within n
  | .float bits => (truncate bits).bind within
  | .text s =>
    match integerOfText? s with
    | some n => within n
    | none => ((floatOfText? s).bind truncate).bind within
  | .date days => within days
  | .datetime micros _ => within micros
  | _ => none

/-- The double a cell stands for. -/
def float? : Cell → Option UInt64
  | .boolean b => some (if b then one else 0)
  | .integer n => some (nearest n)
  | .float bits => some bits
  | .text s =>
    match integerOfText? s with
    | some n => some (nearest n)
    | none => floatOfText? s
  | .date days => some (nearest days)
  | .datetime micros _ => some (nearest micros)
  | _ => none

/-- The range of an integer type, as a lower bound and an upper bound left out. -/
def range : ColumnType → Int × Int
  | .uint64 => (0, Nat.pow 2 64)
  | .int128 => (-(Nat.pow 2 127 : Int), Nat.pow 2 127)
  | .uint128 => (0, Nat.pow 2 128)
  | _ => (-(Nat.pow 2 63 : Int), Nat.pow 2 63)

/-- Doubles as a cast writes them: the shortest digits, positionally for points from `-4`
to `16`, else `1e30`. -/
def castFormat : FloatFormat := ⟨-4, 16, 1, false, ".0", "0.0", "NaN", "inf"⟩

/-- A cell of a flat type read as a cell of type `t`. -/
def castFlat (t : ColumnType) (c : Cell) : Cell :=
  let integer (n : Option Int) : Cell := match n with
    | some n => .integer n
    | none => .null
  match c, t with
  | .boolean b, .boolean => .boolean b
  | .boolean b, .float64 => .float (if b then one else 0)
  | .boolean b, .string => .text (if b then "true" else "false")
  | .boolean b, .date => .date (if b then 1 else 0)
  | .boolean b, .datetime u => .datetime (if b then 1 else 0) u
  | .boolean _, u => if u.isInteger then integer (c.integerIn? (range u).1 (range u).2) else .null
  | .integer n, .boolean => .boolean (n != 0)
  | .integer n, .float64 => .float (nearest n)
  | .integer n, .string => .text (toString n)
  | .integer n, .date => if fitsSigned 32 n then .date n else .null
  | .integer n, .datetime u => if fitsSigned 64 n then .datetime n u else .null
  | .float bits, .boolean => .boolean (!isZero bits)
  | .float bits, .float64 => .float bits
  | .float bits, .string => .text (castFormat.write bits)
  | .float bits, .date => match truncate bits with
    | some n => if fitsSigned 32 n then .date n else .null
    | none => .null
  | .float bits, .datetime u => match truncate bits with
    | some n => if fitsSigned 64 n then .datetime n u else .null
    | none => .null
  | .text s, .string => .text s
  | .text s, .binary => .binary s.toUTF8.toList
  | .text s, .float64 => match floatOfText? s with
    | some bits => .float bits
    | none => .null
  | .text s, .date => match dateOfText? s with
    | some days => .date days
    | none => .null
  | .text s, u =>
    if u.isInteger then integer ((integerOfText? s).bind fun n => (Cell.integer n).integerIn?
      (range u).1 (range u).2)
    else .null
  | .binary data, .binary => .binary data
  | .binary data, .string => match String.fromUTF8? ⟨data.toArray⟩ with
    | some s => .text s
    | none => .null
  | .date days, .date => .date days
  | .date days, .datetime u => .datetime (days * 86400000000) u
  | .date days, .string => .text (dayText days)
  | .date days, .float64 => .float (nearest days)
  | .datetime micros utc, .datetime u => .datetime micros (utc || u)
  | .datetime micros _, .date => .date (micros.fdiv 86400000000)
  | .datetime micros _, .string => .text (instantText micros)
  | .datetime micros _, .float64 => .float (nearest micros)
  | .object v, .object => .object v
  | _, u => if u.isInteger then integer (c.integerIn? (range u).1 (range u).2) else .null

mutual

/-- A cell read as a cell of type `t`, or the missing cell where it stands for no value of
that type. -/
def cast (t : ColumnType) : Cell → Cell
  | .null => .null
  | .list _ items => match t with
    | .list u => .list u (castAll u items)
    | _ => .null
  | .struct gs vs => match t with
    | .struct fs => .struct fs (castFields fs vs)
    | t => if t.isFlat then .struct (gs.map fun (name, _) => (name, t)) (castAll t vs) else .null
  | c => if t.isFlat then castFlat t c else .null

/-- Cells read as cells of one type. -/
def castAll (t : ColumnType) : List Cell → List Cell
  | [] => []
  | c :: cs => cast t c :: castAll t cs

/-- The values of a structure read as the fields `fs`, in order; a field without a value is
missing. -/
def castFields : List (String × ColumnType) → List Cell → List Cell
  | [], _ => []
  | (_, t) :: fs, c :: cs => cast t c :: castFields fs cs
  | _ :: fs, [] => .null :: castFields fs []

end

end Cell

end Schematic
