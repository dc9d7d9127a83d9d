import Schematic.Number.Shortest
import Schematic.Text.Quote
import Schematic.Value.Basic

/-!
# Values as text

Two texts belong to every value: its *shown* form (`Value.shown`, what messages quote: text in
quotes, classes as `<class 'str'>`) and its *plain* form (`Value.plain`, what a key becomes
when it names a message: text as itself, a date-time with a blank before its time).

A spec is shown as `FieldSpec(type=..., required=False, ...)`, every option by name in
declaration order and then the extras, and its plain form lists the same options separated by
blanks, without the class name: `type=<PrimitiveType string> required=False ...`. Array length
bounds are written the same way as `ArrayOptions(min=1, max=None)`.

Doubles are written with the fewest digits that read back (`Shortest`), positionally when the
decimal point falls between four places before the first digit and sixteen after it, and in
scientific notation otherwise, with a signed exponent of at least two digits.

Objects known by identity are written with the help of a `Naming`, which knows the names of
composite tags and the texts of schemas held in the store.
-/

namespace Schematic

/-- How a double is written: the range of decimal-point positions written positionally, and
the texts of the values that are not finite. -/
structure FloatFormat where
  /-- The smallest position of the decimal point, relative to the first digit, that is
  written positionally. -/
  lowest : Int
  /-- The largest such position. -/
  highest : Int
  /-- At least this many exponent digits. -/
  exponentWidth : Nat
  /-- Whether a positive exponent is written with a plus sign. -/
  plusSign : Bool
  /-- What follows the digits of a whole number written positionally: `.0`, or nothing. -/
  wholeSuffix : String
  /-- The text of zero, after its sign. -/
  zero : String
  nan : String
  infinity : String

/-- Doubles as values are written: positional for points from `-3` to `16`, else `1e+16`. -/
def FloatFormat.standard : FloatFormat := ⟨-3, 16, 2, true, ".0", "0.0", "nan", "inf"⟩

namespace FloatFormat

/-- The digits `ds` (most significant first) with the decimal point at position `point`
(the value is `0.ds × 10^point`). -/
def layout (f : FloatFormat) (ds : List Nat) (point : Int) : String :=
  let digitText (xs : List Nat) : String := String.ofList (xs.map fun d => Char.ofNat (48 + d))
  let n : Int := ds.length
  if f.lowest ≤ point ∧ point ≤ f.highest then
    if point ≤ 0 then
      "0." ++ String.ofList (List.replicate (-point).toNat '0') ++ digitText ds
    else if point ≥ n then
      digitText ds ++ String.ofList (List.replicate (point - n).toNat '0') ++ f.wholeSuffix
    else
      digitText (ds.take point.toNat) ++ "." ++ digitText (ds.drop point.toNat)
  else
    let e := point - 1
    let mantissa := match ds with
      | [] => "0"
      | [d] => digitText [d]
      | d :: rest => digitText [d] ++ "." ++ digitText rest
    let eDigits := toString e.natAbs
    let padded := String.ofList (List.replicate (f.exponentWidth - eDigits.length) '0') ++ eDigits
    mantissa ++ "e" ++ (if e < 0 then "-" else if f.plusSign then "+" else "") ++ padded

/-- The text of a double given by its bits. -/
def write (f : FloatFormat) (bits : UInt64) : String :=
  match Binary.ofBits bits with
  | .nan => f.nan
  | .infinite neg => (if neg then "-" else "") ++ f.infinity
  | .finite neg m e =>
    let sign := if neg then "-" else ""
    if m = 0 then sign ++ f.zero
    else
      let d := Shortest.ofBinary m e
      let ds := Shortest.digitsOf d.digits
      sign ++ f.layout ds (d.exponent + ds.length)

end FloatFormat

/-- The names the store gives to objects known by identity. -/
structure Naming where
  tagName : Tag → String
  schemaText : Nat → String

/-- The qualified name of the function a rule is: the menu makes every rule inside one factory,
as a lambda, except the raising rule (`fail`) and the coroutine function (`run`). -/
def Rule.functionName : Rule → String
  | .raises _ => "make_custom.<locals>.fail"
  | .coroutine _ => "make_custom.<locals>.run"
  | _ => "make_custom.<locals>.<lambda>"

namespace Value

/-- The text of a double as values show it. -/
def floatText (bits : UInt64) : String := FloatFormat.standard.write bits

/-- A date as its constructor is shown. -/
def dateShown (d : Date) : String :=
  "datetime.date(" ++ toString d.year ++ ", " ++ toString d.month ++ ", " ++ toString d.day ++ ")"

/-- An offset in microseconds as a zone object is shown. -/
def zoneShown (micros : Int) : String :=
  if micros = 0 then "datetime.timezone.utc"
  else "datetime.timezone(" ++ Calendar.deltaShown micros ++ ")"

/-- A date-time as its constructor is shown: trailing zero seconds and microseconds left out,
the zone UTC by name when it is named. -/
def dateTimeShown (t : DateTime) : String :=
  let d := t.date
  let core := [d.year, d.month, d.day, t.hour, t.minute]
  let tail :=
    if t.micro ≠ 0 then [t.second, t.micro] else if t.second ≠ 0 then [t.second] else []
  let fields := ", ".intercalate ((core ++ tail).map toString)
  let zone := match t.offset with
    | some m => ", tzinfo=" ++ (if t.named then "zoneinfo.ZoneInfo(key='UTC')" else zoneShown m)
    | Option.none => ""
  "datetime.datetime(" ++ fields ++ zone ++ ")"

/-- A placeholder address, as objects without a text of their own show one. -/
def address : String := "0x7f3a5c000000"

/-- The text of an optional flag: `True`, `False` or `None`. -/
def flagText : Option Bool → String
  | some true => "True"
  | some false => "False"
  | Option.none => "None"

/-- The text of an optional bound: the number or `None`. -/
def boundText : Option Int → String
  | some n => toString n
  | Option.none => "None"

/-- The options of a spec as `name=text`, in declaration order, the extras last. -/
def specArgs (type : String) (required : Bool) (nullable : Option Bool)
    (min max arrayOptions custom : String) (extras : List String) : List String :=
  ["type=" ++ type, "required=" ++ (if required then "True" else "False"),
    "nullable=" ++ flagText nullable, "min=" ++ min, "max=" ++ max,
    "array_options=" ++ arrayOptions, "custom=" ++ custom] ++ extras

/-- The options of array length bounds as `name=text`, the extras last. -/
def boundArgs (min max : Option Int) (extras : List String) : List String :=
  ["min=" ++ boundText min, "max=" ++ boundText max] ++ extras

mutual

/-- The shown text of a value. -/
def shown (n : Naming) : Value → String
  | .none => "None"
  | .bool b => if b then "True" else "False"
  | .int i => toString i
  | .float bits => floatText bits
  | .str s => Quote.text s
  | .bytes b => Quote.bytes b
  | .list xs => "[" ++ shownItems n xs ++ "]"
  | .tuple [x] => "(" ++ shown n x ++ ",)"
  | .tuple xs => "(" ++ shownItems n xs ++ ")"
  | .dict es => "\x7b" ++ shownEntries n es ++ "\x7d"
  | .date d => dateShown d
  | .datetime t => dateTimeShown t
  | .foreign _ => "<opaque>"
  | .missing => "<object object at " ++ address ++ ">"
  | .marker m => "<class '" ++ m.qualifiedName ++ "'>"
  | .tag t => "<" ++ t.className ++ " " ++ n.tagName t ++ ">"
  | .schema id => n.schemaText id
  | .spec ⟨t, r, nl, lo, hi, ao, c, ex⟩ =>
    "FieldSpec(" ++ ", ".intercalate (specArgs (shown n (.tag t)) r nl (shown n lo) (shown n hi)
      (shownBounds n ao) (shownOption n c) (shownNamed n ex)) ++ ")"
  | .bounds ⟨lo, hi, ex⟩ =>
    "ArrayOptions(" ++ ", ".intercalate (boundArgs lo hi (shownNamed n ex)) ++ ")"
  | .rule r => "<function " ++ r.functionName ++ " at " ++ address ++ ">"
  | .coroutine => "<coroutine object make_custom.<locals>.run at " ++ address ++ ">"

/-- Optional array length bounds as shown: `None`, or `ArrayOptions(...)`. -/
def shownBounds (n : Naming) : Option ArrayOptions → String
  | some ⟨lo, hi, ex⟩ =>
    "ArrayOptions(" ++ ", ".intercalate (boundArgs lo hi (shownNamed n ex)) ++ ")"
  | Option.none => "None"

/-- An optional value as shown, `None` when absent. -/
def shownOption (n : Naming) : Option Value → String
  | some v => shown n v
  | Option.none => "None"

/-- Named options as `name=shown`. -/
def shownNamed (n : Naming) : List (String × Value) → List String
  | [] => []
  | (k, v) :: es => (k ++ "=" ++ shown n v) :: shownNamed n es

/-- Items separated by `, `. -/
def shownItems (n : Naming) : List Value → String
  | [] => ""
  | [x] => shown n x
  | x :: xs => shown n x ++ ", " ++ shownItems n xs

/-- Entries `k: v` separated by `, `. -/
def shownEntries (n : Naming) : List (Value × Value) → String
  | [] => ""
  | [(k, v)] => shown n k ++ ": " ++ shown n v
  | (k, v) :: es => shown n k ++ ": " ++ shown n v ++ ", " ++ shownEntries n es

end

/-- The plain text of a value: text as itself, dates and date-times in ISO form with a blank
before the time, specs and array length bounds as their options separated by blanks,
everything else as shown. -/
def plain (n : Naming) : Value → String
  | .str s => s
  | .date d => Calendar.dateText d
  | .datetime t => Calendar.plainText t
  | .spec ⟨t, r, nl, lo, hi, ao, c, ex⟩ =>
    " ".intercalate (specArgs ((Value.tag t).shown n) r nl (lo.shown n) (hi.shown n)
      (shownBounds n ao) (shownOption n c) (shownNamed n ex))
  | .bounds ⟨lo, hi, ex⟩ => " ".intercalate (boundArgs lo hi (shownNamed n ex))
  | v => v.shown n

end Value

end Schematic
