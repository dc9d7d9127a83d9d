import Schematic.Fault
import Schematic.Number.Literal
import Schematic.Spec
import Schematic.Value.Text

/-!
# Calling classes on values

A class given as a custom rule is called with the value being checked, as the host calls a
class with one argument. `Marker.call` gives what the call returns, or the fault it raises with
the host's own text:

* `bool` and `str` give the value's truth and its plain text;
* `int` takes integers and booleans, doubles rounded toward zero, and text or byte strings
  spelling an integer in base 10 (`IntegerReading`);
* `float` takes numbers, and text or byte strings spelling a double (`readFloat?`);
* `dict`, `list`, `tuple` and `set` iterate their argument (`Value.iterate?`): text gives its
  characters, byte strings their byte values, mappings their keys, and records their options
  as pairs of name and value;
* `bytes` takes a count of zero bytes, byte strings, and iterables of byte values;
* `date` and `datetime` take a year first and a month second, so one number is never enough,
  unless the one argument is the packed state the classes keep (`Construct.unpackDate`);
* `object` takes no argument at all.

Text is read the way the host's number readers read it (`asciiFold`): blanks of any script are
blanks, decimal digits of any script are digits, and any other character beyond the first 127
spoils the numeral.
-/

namespace Schematic

namespace Value

/-- The named options of a record as the pairs iterating it gives. -/
def namedPairs (items : List (String × Value)) : List Value :=
  items.map fun (k, v) => .tuple [.str k, v]

/-- The items iterating a value gives, or none when it cannot be iterated. -/
def iterate? : Value → Option (List Value)
  | .str s => some (s.toList.map fun c => .str c.toString)
  | .bytes bs => some (bs.map fun b => .int b.toNat)
  | .list xs => some xs
  | .tuple xs => some xs
  | .dict es => some (es.map (·.1))
  | .spec sp => some (namedPairs sp.items)
  | .bounds a => some (namedPairs a.items)
  | _ => Option.none

/-- The items of a value, or the fault iterating anything else raises. -/
def iterate (v : Value) : Except Fault (List Value) :=
  match v.iterate? with
  | some xs => .ok xs
  | Option.none => .error (.notIterable v.qualifiedTypeName)

/-- Adds the `i`-th item of a sequence of pairs to a mapping under construction. -/
def addPair (acc : Nat × List (Value × Value)) (x : Value) :
    Except Fault (Nat × List (Value × Value)) :=
  let (i, es) := acc
  match x.iterate? with
  | some [k, w] => match k.unhashable? with
    | some t => .error (.unhashable t)
    | Option.none => .ok (i + 1, insertEntry k w es)
  | some ys => .error (.updateSequence i ys.length)
  | Option.none => .error (.notSequenceElement i)

/-- The mapping `dict(v)` builds: a mapping's own entries, or else one entry for each item,
which must itself iterate into exactly a key and a value. Keys must be hashable, a later key
overwrites an equal earlier one, and the first bad item stops the build. -/
def toDict (v : Value) : Except Fault (List (Value × Value)) :=
  match v with
  | .dict es => .ok es
  | _ => do
    let xs ← v.iterate
    let (_, es) ← xs.foldlM addPair (0, [])
    return es

/-- The distinct items of a list, in the order they first appear. -/
def distinct (xs : List Value) : List Value :=
  xs.foldl (fun acc x => if acc.any (·.same x) then acc else acc ++ [x]) []

end Value

namespace Construct

/-- Text as the number readers see it: characters below 127 as they are, blanks of any script
as the blank, decimal digits of any script as ASCII digits, and anything else as `?`. -/
def asciiFold (s : String) : List Char :=
  s.toList.map fun c =>
    if c.toNat < 127 then c
    else if Unicode.space c then ' '
    else match Unicode.decimal? c with
      | some d => Char.ofNat (48 + d)
      | none => '?'

/-- The characters of a byte string. -/
def byteChars (bs : List UInt8) : List Char :=
  bs.map fun b => Char.ofNat b.toNat

/-- The value of a run of decimal digits. -/
def digitValue (ds : List Char) : Nat :=
  ds.foldl (fun acc c => acc * 10 + (c.toNat - 48)) 0

/-- Splits a run of digits off the front of `cs`, a single underscore allowed between two
digits: the digits without the underscores, and what follows. None when an underscore is
doubled or is not followed by a digit. -/
def scanDigits : List Char → Option (List Char × List Char)
  | c :: '_' :: d :: more =>
    if !c.isDigit then some ([], c :: '_' :: d :: more)
    else if d.isDigit then (scanDigits (d :: more)).map fun (ds, r) => (c :: ds, r)
    else none
  | [c, '_'] => if c.isDigit then none else some ([], [c, '_'])
  | c :: cs =>
    if c.isDigit then (scanDigits cs).map fun (ds, r) => (c :: ds, r) else some ([], c :: cs)
  | [] => some ([], [])
termination_by cs => cs.length

/-- What reading an integer numeral gives. -/
inductive IntegerReading where
  | value (n : Int)
  | invalid
  /-- A numeral with more digits than the 4300 that text conversion allows. -/
  | tooLong (digits : Nat)
  deriving Repr, DecidableEq

/-- Reads an integer numeral in base 10: blanks, an optional sign, digits with single
underscores between them, blanks. The digit count is checked as soon as the digits are read,
before what follows them. -/
def readInteger (cs : List Char) : IntegerReading :=
  let cs := cs.dropWhile Unicode.asciiSpace
  let (negative, cs) := match cs with
    | '-' :: rest => (true, rest)
    | '+' :: rest => (false, rest)
    | rest => (false, rest)
  match scanDigits cs with
  | none => .invalid
  | some (ds, rest) =>
    if ds.length > 4300 then .tooLong ds.length
    else if ds.isEmpty || !(rest.all Unicode.asciiSpace) then .invalid
    else
      let n : Int := digitValue ds
      .value (if negative then -n else n)

/-- Whether every underscore stands between two digits. -/
def underscoresBetweenDigits : Char → List Char → Bool
  | prev, c :: cs =>
    (if c = '_' then prev.isDigit else prev ≠ '_' || c.isDigit) && underscoresBetweenDigits c cs
  | prev, [] => prev ≠ '_'

/-- Reads the digits of a decimal numeral with an optional point: the digits, and how many
of them follow the point; none without any digit. -/
def decimalDigits (cs : List Char) : Option (List Char × Nat × List Char) :=
  let whole := cs.takeWhile Char.isDigit
  let cs := cs.dropWhile Char.isDigit
  let (frac, cs) := match cs with
    | '.' :: rest => (rest.takeWhile Char.isDigit, rest.dropWhile Char.isDigit)
    | _ => ([], cs)
  if whole.isEmpty && frac.isEmpty then none else some (whole ++ frac, frac.length, cs)

/-- Reads an exponent `e` or `E` with an optional sign and digits. -/
def exponent? : List Char → Option Int
  | c :: cs =>
    if c = 'e' ∨ c = 'E' then
      let (negative, ds) := match cs with
        | '-' :: rest => (true, rest)
        | '+' :: rest => (false, rest)
        | rest => (false, rest)
      if !ds.isEmpty && ds.all Char.isDigit then
        let n : Int := digitValue ds
        some (if negative then -n else n)
      else none
    else none
  | [] => some 0

/-- The double a numeral spells: blanks around it, an optional sign, then `inf`, `infinity` or
`nan` in any case, or digits with an optional point and an optional exponent; underscores only
between digits. The double is the nearest to the exact number, so huge numerals give an
infinity and tiny ones a zero. -/
def readFloat? (cs : List Char) : Option UInt64 :=
  if !underscoresBetweenDigits ' ' cs then none
  else
    let cs := cs.filter (· ≠ '_')
    let cs := ((cs.dropWhile Unicode.asciiSpace).reverse.dropWhile Unicode.asciiSpace).reverse
    let (negative, body) := match cs with
      | '-' :: rest => (true, rest)
      | '+' :: rest => (false, rest)
      | rest => (false, rest)
    let word := String.ofList (body.map Char.toLower)
    let sign : UInt64 := if negative then 0x8000000000000000 else 0
    if word = "inf" ∨ word = "infinity" then some (sign ||| 0x7FF0000000000000)
    else if word = "nan" then some (sign ||| 0x7FF8000000000000)
    else do
      let (ds, fracCount, rest) ← decimalDigits body
      let e ← exponent? rest
      some (Numeral.nearestBits ⟨negative, digitValue ds, e - fracCount, true⟩)

/-- The double nearest an integer, or the fault for one beyond the largest double. -/
def intToFloat (n : Int) : Except Fault Value :=
  let bits := Binary.nearest (decide (n < 0)) n.natAbs 1
  match Binary.ofBits bits with
  | .infinite _ => .error .integerTooLargeForFloat
  | _ => .ok (.float bits)

/-- The integer a double rounds to toward zero. -/
def truncate (bits : UInt64) : Except Fault Int :=
  match Binary.ofBits bits with
  | .nan => .error .nanToInteger
  | .infinite _ => .error .infinityToInteger
  | .finite negative m e =>
    let mag : Nat := if 0 ≤ e then m * Nat.pow 2 e.toNat else m / Nat.pow 2 (-e).toNat
    .ok (if negative then -(mag : Int) else mag)

/-- The shown text of a numeral in a message, cut to its first 200 characters. -/
def cut (shown : String) : String := String.ofList (shown.toList.take 200)

/-- `int(v)`. -/
def toInt : Value → Except Fault Int
  | .bool b => .ok (if b then 1 else 0)
  | .int n => .ok n
  | .float bits => truncate bits
  | .str s => match readInteger (asciiFold s) with
    | .value n => .ok n
    | .invalid => .error (.integerLiteral (cut (Quote.text s)))
    | .tooLong n => .error (.digitLimit n)
  | .bytes bs => match readInteger (byteChars bs) with
    | .value n => .ok n
    | .invalid => .error (.integerLiteral (cut (Quote.bytes bs)))
    | .tooLong n => .error (.digitLimit n)
  | v => .error (.integerArgument v.qualifiedTypeName)

/-- `float(v)`. -/
def toFloat : Value → Except Fault Value
  | .bool b => .ok (.float (if b then 0x3FF0000000000000 else 0))
  | .int n => intToFloat n
  | .float bits => .ok (.float bits)
  | .str s => match readFloat? (asciiFold s) with
    | some bits => .ok (.float bits)
    | none => .error (.floatLiteral (Quote.text s))
  | .bytes bs => match readFloat? (byteChars bs) with
    | some bits => .ok (.float bits)
    | none => .error (.floatLiteral (Quote.bytes bs))
  | v => .error (.floatArgument v.qualifiedTypeName)

/-- A byte value of an iterable given to `bytes`. -/
def byteOf : Value → Except Fault UInt8
  | .bool b => .ok (if b then 1 else 0)
  | .int n => if 0 ≤ n ∧ n < 256 then .ok (UInt8.ofNat n.toNat) else .error .byteRange
  | v => .error (.notAnInteger v.qualifiedTypeName)

/-- A count of zero bytes: negative counts and counts beyond a machine index are refused. -/
def zeroBytes (n : Int) : Except Fault Value :=
  if n < -(Nat.pow 2 63 : Int) ∨ n ≥ (Nat.pow 2 63 : Int) then .error .indexOverflow
  else if n < 0 then .error .negativeCount
  else .ok (.bytes (List.replicate n.toNat 0))

/-- `bytes(v)`. -/
def toBytes : Value → Except Fault Value
  | .str _ => .error .textWithoutEncoding
  | .bytes bs => .ok (.bytes bs)
  | .bool b => zeroBytes (if b then 1 else 0)
  | .int n => zeroBytes n
  | v => match v.iterate? with
    | some xs => do return .bytes (← xs.mapM byteOf)
    | none => .error (.notBytes v.qualifiedTypeName)

/-- The year argument of `date(v)` or `datetime(v)`: it must fit a machine integer, and then
the month is missing. -/
def yearOnly (n : Int) : Fault :=
  if n ≥ (Nat.pow 2 63 : Int) ∨ n < -(Nat.pow 2 63 : Int) then .longOverflow
  else if n ≥ (Nat.pow 2 31 : Int) then .machineOverflow true
  else if n < -(Nat.pow 2 31 : Int) then .machineOverflow false
  else .missingArgument "month" 2

/-- Whether a byte is a month number, 1 to 12. -/
def saneMonth (b : Nat) : Bool := 1 ≤ b && b ≤ 12

/-- The date packed in four bytes: the year in two, then the month and the day. -/
def unpackDate : List UInt8 → Option Date
  | [y1, y2, m, d] =>
    if saneMonth m.toNat then some ⟨y1.toNat * 256 + y2.toNat, m.toNat, d.toNat⟩ else none
  | _ => none

/-- The naive date-time packed in ten bytes: the date as `unpackDate` reads it (the month's
top bit aside), the hour, minute and second, and the microseconds in three bytes. -/
def unpackDateTime : List UInt8 → Option DateTime
  | [y1, y2, m, d, h, mi, s, u1, u2, u3] =>
    let month := m.toNat % 128
    if saneMonth month then
      some ⟨⟨y1.toNat * 256 + y2.toNat, month, d.toNat⟩, h.toNat, mi.toNat, s.toNat,
        (u1.toNat * 256 + u2.toNat) * 256 + u3.toNat, none, false⟩
    else none
  | _ => none

/-- The packed state text stands for, its characters read as Latin-1 bytes, when it has
`size` characters and its third is a month; a character beyond Latin-1 is a fault then. -/
def latinState (kind : String) (size : Nat) (s : String) : Option (Except Fault (List UInt8)) :=
  let cs := s.toList
  let third := (cs.drop 2).head?.map Char.toNat
  if cs.length = size && (third.map fun b => saneMonth (b % 128)).getD false then
    some (if cs.all (·.toNat < 256) then .ok (cs.map fun c => UInt8.ofNat c.toNat)
      else .error (.latinState kind))
  else none

/-- `date(v)`. -/
def toDate : Value → Except Fault Value
  | .bool b => .error (yearOnly (if b then 1 else 0))
  | .int n => .error (yearOnly n)
  | .bytes bs => match unpackDate bs with
    | some d => .ok (.date d)
    | none => .error (.notAnInteger "bytes")
  | .str s => match latinState "date" 4 s with
    | some (.ok bs) => match unpackDate bs with
      | some d => .ok (.date d)
      | none => .error (.notAnInteger "str")
    | some (.error f) => .error f
    | none => .error (.notAnInteger "str")
  | v => .error (.notAnInteger v.qualifiedTypeName)

/-- `datetime(v)`. -/
def toDateTime : Value → Except Fault Value
  | .bool b => .error (yearOnly (if b then 1 else 0))
  | .int n => .error (yearOnly n)
  | .bytes bs => match unpackDateTime bs with
    | some t => .ok (.datetime t)
    | none => .error (.notAnInteger "bytes")
  | .str s => match latinState "datetime" 10 s with
    | some (.ok bs) => match unpackDateTime bs with
      | some t => .ok (.datetime t)
      | none => .error (.notAnInteger "str")
    | some (.error f) => .error f
    | none => .error (.notAnInteger "str")
  | v => .error (.notAnInteger v.qualifiedTypeName)

/-- `set(v)`, given as the list of its distinct items: every item must be hashable. -/
def toSet (v : Value) : Except Fault Value := do
  let xs ← v.iterate
  for x in xs do
    if let some t := x.unhashable? then throw (.unhashable t)
  return .list (Value.distinct xs)

end Construct

/-- What calling the class on a value returns, or the fault the call raises. -/
def Marker.call (n : Naming) (m : Marker) (v : Value) : Except Fault Value :=
  match m with
  | .bool => .ok (.bool v.truthy)
  | .str => .ok (.str (v.plain n))
  | .int => (Construct.toInt v).map .int
  | .float => Construct.toFloat v
  | .dict => (Value.toDict v).map .dict
  | .list => v.iterate.map .list
  | .tuple => v.iterate.map .tuple
  | .set => Construct.toSet v
  | .bytes => Construct.toBytes v
  | .date => Construct.toDate v
  | .datetime => Construct.toDateTime v
  | .object => .error .noArguments

end Schematic
