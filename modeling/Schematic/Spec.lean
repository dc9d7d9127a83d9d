import Schematic.Text.Unicode
import Schematic.Value.Equality

/-!
# Field specs

A *field spec* is the normalized declaration of one field: its type tag, whether it is
required, whether it accepts none (`nullable`, which may be left unset), its bounds, the bounds
on its length when it is an array (`ArrayOptions`), an optional custom rule, and every other
option kept as an *extra*.

The records themselves (`Spec`, `ArrayOptions`) are values (`Value/Basic.lean`); this module
reads them from option mappings and writes them back.

Specs are read from option mappings leniently: a flag accepts `True`/`False`, the numbers `0`
and `1`, and the words `0, f, n, no, off, false` and `1, t, y, on, yes, true` in any case; an
array length bound accepts an integer, a boolean, a whole double below `2^63` in size, or text
spelling an integer. Text may also be given as a byte string holding its UTF-8 encoding.
`Spec.ofEntries` counts every option it cannot read; the count is the number reported.
-/

namespace Schematic

/-- Options of a schema: its name, and every other option kept as an extra. -/
structure SchemaOptions where
  name : Option String := none
  extra : List (String × Value) := []
  deriving Inhabited

namespace Lenient

/-- The words read as false and as true, compared without regard to case. -/
def falseWords : List String := ["0", "f", "n", "no", "off", "false"]

/-- See `falseWords`. -/
def trueWords : List String := ["1", "t", "y", "on", "yes", "true"]

/-- The text a byte string encodes in UTF-8, when it is valid UTF-8. -/
def utf8? (bs : List UInt8) : Option String :=
  String.fromUTF8? (ByteArray.mk bs.toArray)

/-- A flag spelled as a word. -/
def flagWord? (s : String) : Option Bool :=
  let w := s.toLower
  if falseWords.contains w then some false else if trueWords.contains w then some true
  else none

/-- A flag read leniently. -/
def flag? : Value → Option Bool
  | .bool b => some b
  | .int 0 => some false
  | .int 1 => some true
  | .str s => flagWord? s
  | .bytes bs => (utf8? bs).bind flagWord?
  | v@(.float _) =>
    match v.number? with
    | some (.dyadic 0 _) => some false
    | some (.dyadic n s) => if n = Nat.pow 2 s then some true else none
    | _ => none
  | _ => none

/-- The integer a whole finite double strictly between `-2^63` and `2^63` stands for. -/
def wholeOfBits (bits : UInt64) : Option Int :=
  match Binary.ofBits bits with
  | b@(.finite neg m e) =>
    if b.isWhole then
      let mag : Nat := if 0 ≤ e then m * Nat.pow 2 e.toNat else m / Nat.pow 2 (-e).toNat
      if mag < Nat.pow 2 63 then some (if neg then -(mag : Int) else mag) else none
    else none
  | _ => none

/-- Text after leading zeros whose last character was `prev`: the zeros and the underscores
among them are dropped, up to the first other digit or a minus sign. A point keeps the zero
before it, text of zeros keeps its last character, and any other character refuses it. -/
def afterZeros (prev : Char) : List Char → Option (List Char)
  | [] => some [prev]
  | c :: rest =>
    if c = '0' || c = '_' then afterZeros c rest
    else if ('1' ≤ c && c ≤ '9') || c = '-' then some (c :: rest)
    else if c = '.' then some (prev :: c :: rest)
    else none

/-- Text without its leading zeros (`afterZeros`); text starting with another digit is kept,
and text starting with anything else is refused. -/
def dropLeadingZeros : List Char → Option (List Char)
  | '0' :: rest => afterZeros '0' rest
  | c :: rest => if '1' ≤ c && c ≤ '9' then some (c :: rest) else none
  | [] => none

/-- Text without a point followed by one or more zeros only; other text is kept. -/
def dropPointZeros (cs : List Char) : List Char :=
  match cs.span (· ≠ '.') with
  | (whole, _ :: zeros) => if !zeros.isEmpty && zeros.all (· = '0') then whole else cs
  | _ => cs

/-- Text without its underscores when each stands alone and neither starts nor ends it; other
text is kept as it is. -/
def dropUnderscores (cs : List Char) : List Char :=
  let placed := cs.contains '_' && cs.head? != some '_' && cs.getLast? != some '_' &&
    !((cs.zip cs.tail).any fun (a, b) => a = '_' && b = '_')
  if placed then cs.filter (· ≠ '_') else cs

/-- The value of an integer written strictly: an optional minus sign and digits, without a
leading zero unless the digits are a single zero, and of at most 4300 digits. -/
def strictInteger? (cs : List Char) : Option Int :=
  let (neg, ds) := match cs with
    | '-' :: rest => (true, rest)
    | rest => (false, rest)
  let ok := !ds.isEmpty && ds.all Char.isDigit && (ds.head? != some '0' || ds.length = 1)
  if ok then
    let n := ds.foldl (fun acc c => acc * 10 + (c.toNat - '0'.toNat)) 0
    if n < Nat.pow 10 4300 then some (if neg then -(n : Int) else n) else none
  else none

/-- Text spelling an integer, read leniently: blanks around it are dropped, then one sign before
it, its leading zeros (`dropLeadingZeros`), a point followed by zeros (`dropPointZeros`) and
well placed underscores (`dropUnderscores`); what is left, with a minus sign in front if the
sign was one, must be an integer written strictly (`strictInteger?`). A minus sign right after
leading zeros is thus the sign of the number when no sign came before them, and a number of
more than 4300 significant digits is refused. -/
def integerText? (s : String) : Option Int :=
  let cs := ((s.toList.dropWhile Unicode.trimmed).reverse.dropWhile Unicode.trimmed).reverse
  let (neg, unsigned) := match cs with
    | '-' :: rest => (true, rest)
    | '+' :: rest => (false, rest)
    | rest => (false, rest)
  (dropLeadingZeros unsigned).bind fun ds =>
    let rest := dropUnderscores (dropPointZeros ds)
    strictInteger? (if neg then '-' :: rest else rest)

/-- An integer read leniently. -/
def integer? : Value → Option Int
  | .int n => some n
  | .bool b => some (if b then 1 else 0)
  | .float bits => wholeOfBits bits
  | .str s => integerText? s
  | .bytes bs => (utf8? bs).bind integerText?
  | _ => none

/-- Text read leniently: text, or the UTF-8 text a byte string holds. -/
def text? : Value → Option String
  | .str s => some s
  | .bytes bs => utf8? bs
  | _ => none

end Lenient

/-- The value under a text key of a mapping. -/
def entryAt (es : List (Value × Value)) (key : String) : Option Value :=
  Value.lookup (.str key) es

/-- The entries whose keys are not among `used`: text keys are kept, each other key is
one error. -/
def extrasOf (es : List (Value × Value)) (used : List String) : List (String × Value) × Nat :=
  es.foldl (fun (acc, errs) (k, v) =>
    match k with
    | .str s => if used.contains s then (acc, errs) else (acc ++ [(s, v)], errs)
    | _ => (acc, errs + 1)) ([], 0)

/-- An optional option read with `read`: absent or none gives `none`; an unreadable value
is one error. -/
def optionalWith {α : Type} (read : Value → Option α) : Option Value → Option α × Nat
  | none => (none, 0)
  | some .none => (none, 0)
  | some v => match read v with
    | some a => (some a, 0)
    | none => (none, 1)

namespace Value

/-- An optional flag as a value: the boolean, or none. -/
def flagValue : Option Bool → Value
  | some b => .bool b
  | Option.none => .none

/-- An optional bound as a value: the integer, or none. -/
def boundValue : Option Int → Value
  | some n => .int n
  | Option.none => .none

mutual

/-- A value with every record inside it written out as its options mapping, as records dump
themselves: a spec's options in declaration order without its compiled validator, array length
bounds as `min` and `max`, the extras last; lists, tuples and the values of mappings are
dumped item by item. -/
def dumped : Value → Value
  | .spec ⟨t, r, n, lo, hi, ao, c, ex⟩ =>
    .dict ([(.str "type", .tag t), (.str "required", .bool r), (.str "nullable", flagValue n),
      (.str "min", dumped lo), (.str "max", dumped hi), (.str "array_options", dumpedBounds ao),
      (.str "custom", c.getD .none)] ++ dumpedNamed ex)
  | .bounds ⟨lo, hi, ex⟩ =>
    .dict ([(.str "min", boundValue lo), (.str "max", boundValue hi)] ++ dumpedNamed ex)
  | .list xs => .list (dumpedList xs)
  | .tuple xs => .tuple (dumpedList xs)
  | .dict es => .dict (dumpedEntries es)
  | v => v

/-- Optional array length bounds dumped: their mapping, or none. -/
def dumpedBounds : Option ArrayOptions → Value
  | some ⟨lo, hi, ex⟩ =>
    .dict ([(.str "min", boundValue lo), (.str "max", boundValue hi)] ++ dumpedNamed ex)
  | Option.none => .none

/-- Named options dumped, as entries of a mapping. -/
def dumpedNamed : List (String × Value) → List (Value × Value)
  | [] => []
  | (k, v) :: es => (.str k, dumped v) :: dumpedNamed es

/-- Items dumped one by one. -/
def dumpedList : List Value → List Value
  | [] => []
  | x :: xs => dumped x :: dumpedList xs

/-- The values of a mapping dumped one by one. -/
def dumpedEntries : List (Value × Value) → List (Value × Value)
  | [] => []
  | (k, v) :: es => (k, dumped v) :: dumpedEntries es

end

end Value

namespace ArrayOptionsOf

/-- Reads array options from a mapping's entries, with the number of errors. -/
def ofEntries (es : List (Value × Value)) : ArrayOptions × Nat :=
  let (lo, e1) := optionalWith Lenient.integer? (entryAt es "min")
  let (hi, e2) := optionalWith Lenient.integer? (entryAt es "max")
  let (extra, e3) := extrasOf es ["min", "max"]
  (⟨lo, hi, extra⟩, e1 + e2 + e3)

/-- The array options as a mapping, extras last, records inside dumped too. -/
def dump (a : ArrayOptions) : Value := Value.dumped (.bounds a)

/-- The options of the bounds as the record iterates them: `min`, `max`, then the extras. -/
def items (a : ArrayOptions) : List (String × Value) :=
  [("min", Value.boundValue a.min), ("max", Value.boundValue a.max)] ++ a.extra

end ArrayOptionsOf

namespace SpecOf

/-- The option names of a spec; `arrayOptions` is the other spelling of `array_options`. -/
def optionNames : List String :=
  ["type", "required", "nullable", "min", "max", "custom", "validator"]

/-- Reads a spec from the entries of an options mapping whose `type` is already a tag, with the
number of options that could not be read. The spelling `arrayOptions` wins over
`array_options`, which is then an extra. -/
def ofEntries (type : Tag) (es : List (Value × Value)) : Spec × Nat :=
  let (required, e1) := match entryAt es "required" with
    | none => (false, 0)
    | some v => match Lenient.flag? v with
      | some b => (b, 0)
      | none => (false, 1)
  let (nullable, e2) := optionalWith Lenient.flag? (entryAt es "nullable")
  let lo := (entryAt es "min").getD .none
  let hi := (entryAt es "max").getD .none
  let (arrayKey, arrayValue) := match entryAt es "arrayOptions" with
    | some v => ("arrayOptions", some v)
    | none => ("array_options", entryAt es "array_options")
  let (arrayOptions, e3) := match arrayValue with
    | none => (none, 0)
    | some .none => (none, 0)
    | some (.dict inner) =>
      let (a, n) := ArrayOptionsOf.ofEntries inner
      (some a, n)
    | some _ => (none, 1)
  let (custom, e4) := optionalWith (fun v => if v.callable then some v else none)
    (entryAt es "custom")
  let (_, e5) := optionalWith (fun v => if v.callable then some v else none)
    (entryAt es "validator")
  let (extra, e6) := extrasOf es (arrayKey :: optionNames)
  (⟨type, required, nullable, lo, hi, arrayOptions, custom, extra⟩, e1 + e2 + e3 + e4 + e5 + e6)

/-- The spec as an options mapping, in option order, extras last, records inside dumped
too. -/
def dump (s : Spec) : Value := Value.dumped (.spec s)

/-- The options of a spec as the record iterates them: every declared option in order, the
compiled validator (none) among them, then the extras. -/
def items (s : Spec) : List (String × Value) :=
  [("type", .tag s.type), ("required", .bool s.required), ("nullable", Value.flagValue s.nullable),
    ("min", s.min), ("max", s.max),
    ("array_options", match s.arrayOptions with
      | some a => .bounds a
      | none => .none),
    ("custom", s.custom.getD .none), ("validator", .none)] ++ s.extra

end SpecOf

namespace SchemaOptions

/-- Reads schema options from entries, with the number of errors: the name must be text
or none. -/
def ofEntries (es : List (Value × Value)) : SchemaOptions × Nat :=
  let (name, e1) := optionalWith Lenient.text? (entryAt es "name")
  let (extra, e2) := extrasOf es ["name"]
  (⟨name, extra⟩, e1 + e2)

end SchemaOptions

end Schematic
