import Schematic.Fault
import Schematic.Frame.ColumnType
import Schematic.Number.Places
import Schematic.Value.Text

/-!
# Cells

A cell is one value of a column, in the terms of the column's type: dates are counted in days
and date-times in microseconds since 1970-01-01, and every integer is held exactly (its type is
a 64-bit integer when it fits one, else a 128-bit integer when it fits one, else an unsigned
128-bit integer). A list cell knows its element
type and a structure cell its fields, so that every cell has a type (`Cell.type`).

Faults quote a cell by its *display* (`Cell.display`): text in double quotes, booleans in lower
case, `null`, dates as `2020-01-01`, date-times as `2020-01-01 18:00:00` with `.mmm` or
`.uuuuuu` for a fraction of a second and ` UTC` when marked, byte strings as `b"…"` with
`\xNN` for bytes outside printable ASCII, lists as `[a, b, c]` (a longer one as
`[a, b, … z]`), structures as `{a,b}`. A double is displayed as frames print numbers
(`Cell.floatText`): a whole number below a million with one decimal, a long text in scientific
notation with four decimals or with up to six decimals, otherwise its shortest text.

Rows read cells back as host values (`Cell.toValue`); a date out of the years 1 to 9999 has
no host value.
-/

namespace Schematic

/-- A value of a column. -/
inductive Cell where
  | null
  | boolean (b : Bool)
  | integer (n : Int)
  | float (bits : UInt64)
  | text (s : String)
  | binary (data : List UInt8)
  /-- Days since 1970-01-01. -/
  | date (days : Int)
  /-- Microseconds since 1970-01-01, marked as UTC or naive. -/
  | datetime (micros : Int) (utc : Bool)
  /-- A host object, kept as it is. -/
  | object (v : Value)
  | list (element : ColumnType) (items : List Cell)
  | struct (fields : List (String × ColumnType)) (values : List Cell)
  deriving Inhabited

namespace Cell

/-- Whether an integer fits in `bits` bits with a sign. -/
def fitsSigned (bits : Nat) (n : Int) : Bool :=
  -(Nat.pow 2 (bits - 1) : Int) ≤ n && n < (Nat.pow 2 (bits - 1) : Int)

/-- The type of a cell. -/
def type : Cell → ColumnType
  | .null => .null
  | .boolean _ => .boolean
  | .integer n =>
    if fitsSigned 64 n then .int64 else if fitsSigned 128 n then .int128 else .uint128
  | .float _ => .float64
  | .text _ => .string
  | .binary _ => .binary
  | .date _ => .date
  | .datetime _ u => .datetime u
  | .object _ => .object
  | .list t _ => .list t
  | .struct fs _ => .struct fs

/-- Whether a cell is missing. -/
def isNull : Cell → Bool
  | .null => true
  | _ => false

/-- Whether a cell holds nothing but missing values: none itself, a list of missing items (an
empty one too), a structure with fields that are all such cells. A structure without fields
holds a value of its own. -/
def nestedNull : Cell → Bool
  | .null => true
  | .list _ items => items.all isNull
  | .struct _ vs => !vs.isEmpty && nestedNullAll vs
  | _ => false
where
  /-- Whether every cell of a list holds nothing but missing values. -/
  nestedNullAll : List Cell → Bool
    | [] => true
    | c :: cs => nestedNull c && nestedNullAll cs

/-- The double `999999`: frames print a whole number below it with one decimal, and a long
text of a number above it in scientific notation. -/
def million : UInt64 := 0x412E847E00000000

/-- The double nearest to `0.000001`: frames print a long text of a number below it in
scientific notation. -/
def millionth : UInt64 := 0x3EB0C6F7A0B5ED8D

/-- Doubles with their shortest digits, positionally and with no `.0` after a whole
number. -/
def positional : FloatFormat := ⟨-400, 400, 1, false, "", "0", "NaN", "inf"⟩

/-- Doubles with their shortest digits in scientific notation: `1.5e8`, `1e-7`. -/
def exponential : FloatFormat := ⟨1, 0, 1, false, "", "0e0", "NaN", "inf"⟩

/-- A six-decimal text without its trailing zeros, one zero kept after the point. -/
def trimZeros (s : String) : String :=
  let cs := (s.toList.reverse.dropWhile (· == '0')).reverse
  if cs.getLast? == some '.' then String.ofList cs ++ "0" else String.ofList cs

/-- A double as frames display it. -/
def floatText (bits : UInt64) : String :=
  match Binary.ofBits bits with
  | .nan => "NaN"
  | .infinite negative => if negative then "-inf" else "inf"
  | .finite negative m e =>
    let size := Extended.ofBinary (.finite false m e)
    let below (x : UInt64) := size.compare? (.ofBinary (Binary.ofBits x)) == some .lt
    let above (x : UInt64) := size.compare? (.ofBinary (Binary.ofBits x)) == some .gt
    let whole := (Binary.finite negative m e).isWhole
    if whole && below million then Places.fixed negative m e 1
    else if (positional.write bits).length > 9 then
      if below millionth || above million then Places.scientific negative m e 4
      else trimZeros (Places.fixed negative m e 6)
    else if whole then exponential.write bits
    else positional.write bits

/-- Two hexadecimal digits of a byte. -/
def hexByte (b : UInt8) : String :=
  let digit (n : Nat) : Char := if n < 10 then Char.ofNat (48 + n) else Char.ofNat (87 + n)
  String.ofList [digit (b.toNat / 16), digit (b.toNat % 16)]

/-- A byte string as displayed: printable ASCII as it is, other bytes as `\xNN`, at most sixty
bytes before an ellipsis. -/
def binaryText (data : List UInt8) : String :=
  let byte (b : UInt8) : String :=
    if 33 ≤ b.toNat && b.toNat ≤ 126 then String.singleton (Char.ofNat b.toNat)
    else "\\x" ++ hexByte b
  let body := String.join ((data.take 60).map byte)
  "b\"" ++ body ++ (if data.length > 60 then "\"…" else "\"")

/-- A year with four digits, or with a sign and at least four digits outside `0..9999`. -/
def yearText (y : Int) : String :=
  if 0 ≤ y && y ≤ 9999 then Calendar.padded 4 y.toNat
  else (if y < 0 then "-" else "+") ++ Calendar.padded 4 y.natAbs

/-- The date `days` after 1970-01-01 as `YYYY-MM-DD`. -/
def dayText (days : Int) : String :=
  let (y, m, d) := Date.civil days
  yearText y ++ "-" ++ Calendar.padded 2 m ++ "-" ++ Calendar.padded 2 d

/-- The date-time `micros` after 1970-01-01 as `YYYY-MM-DD HH:MM:SS`, with milliseconds or
microseconds when there is a fraction of a second. -/
def instantText (micros : Int) : String :=
  let day := micros.fdiv 86400000000
  let rest := (micros - day * 86400000000).toNat
  let micro := rest % 1000000
  let fraction :=
    if micro = 0 then ""
    else if micro % 1000 = 0 then "." ++ Calendar.padded 3 (micro / 1000)
    else "." ++ Calendar.padded 6 micro
  dayText day ++ " " ++ Calendar.padded 2 (rest / 3600000000) ++ ":" ++
    Calendar.padded 2 (rest / 60000000 % 60) ++ ":" ++ Calendar.padded 2 (rest / 1000000 % 60) ++
    fraction

/-- Item texts as a list shows them: all of at most three, else the first two, an ellipsis
and the last. -/
def listText (ts : List String) : String :=
  if ts.length ≤ 3 then "[" ++ ", ".intercalate ts ++ "]"
  else "[" ++ ts.getD 0 "" ++ ", " ++ ts.getD 1 "" ++ ", … " ++ ts.getLastD "" ++ "]"

mutual

/-- The display of a cell. -/
def display (n : Naming) : Cell → String
  | .null => "null"
  | .boolean b => if b then "true" else "false"
  | .integer i => toString i
  | .float bits => floatText bits
  | .text s => "\"" ++ s ++ "\""
  | .binary data => binaryText data
  | .date days => dayText days
  | .datetime micros utc => instantText micros ++ (if utc then " UTC" else "")
  | .object v => v.plain n
  | .list _ items => listText (displays n items)
  | .struct _ vs => "\x7b" ++ ",".intercalate (displays n vs) ++ "\x7d"

/-- The displays of cells. -/
def displays (n : Naming) : List Cell → List String
  | [] => []
  | c :: cs => display n c :: displays n cs

end

/-- The host date `days` after 1970-01-01, refused outside the years 1 to 9999. -/
def hostDate (days : Int) : Except Fault Date :=
  let (y, m, d) := Date.civil days
  if 1 ≤ y && y ≤ 9999 then .ok ⟨y.toNat, m, d⟩ else .error (.calendar (.year y) "")

/-- The host date-time `micros` after 1970-01-01, with an offset of zero when it is marked as
UTC. -/
def hostDateTime (micros : Int) (utc : Bool) : Except Fault DateTime := do
  let day := micros.fdiv 86400000000
  let rest := (micros - day * 86400000000).toNat
  let d ← hostDate day
  return ⟨d, rest / 3600000000, rest / 60000000 % 60, rest / 1000000 % 60, rest % 1000000,
    if utc then some 0 else none, utc⟩

mutual

/-- The host value of a cell: a list as a list, a structure as a mapping of every field. -/
def toValue : Cell → Except Fault Value
  | .null => .ok .none
  | .boolean b => .ok (.bool b)
  | .integer i => .ok (.int i)
  | .float bits => .ok (.float bits)
  | .text s => .ok (.str s)
  | .binary data => .ok (.bytes data)
  | .date days => .date <$> hostDate days
  | .datetime micros utc => .datetime <$> hostDateTime micros utc
  | .object v => .ok v
  | .list _ items => .list <$> toValues items
  | .struct fs vs => .dict <$> toEntries fs vs

/-- The host values of cells. -/
def toValues : List Cell → Except Fault (List Value)
  | [] => .ok []
  | c :: cs => do return (← toValue c) :: (← toValues cs)

/-- The entries of a structure: each field's name with its value. -/
def toEntries : List (String × ColumnType) → List Cell → Except Fault (List (Value × Value))
  | (name, _) :: fs, c :: cs => do return (.str name, ← toValue c) :: (← toEntries fs cs)
  | _, _ => .ok []

end

end Cell

end Schematic
