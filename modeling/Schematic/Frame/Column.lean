import Schematic.Frame.DateFormat
import Schematic.Frame.Rows

/-!
# Building a column

`ColumnType.build` makes the cells of a column of a given type from the values given for it,
with the type the column ends up with.

* A column of nulls holds only missing cells.
* A flat column reads its values with its type's own reader (`ColumnType.read`). When one is
  refused, every value is converted to a cell (`Cell.ofValue`, host objects refused unless the
  host already keeps their class as objects) and the cells are built strictly, so the first
  value of another type is the fault.
* A date or date-time column whose first value given is not an integer is built in the type of
  its first cell instead, host objects kept. Texts are then read as dates or date-times
  (`DateFormat.column`), and a date-time column turns dates to midnights; cells of other types
  are kept as they are. A double as that first value is refused at once.
* A list column takes each value's items as the host iterates them (the characters of a text,
  the bytes of a byte string, the keys of a mapping; other values have no length), builds them
  as a column of the element type, and, once every value is built, casts the cells to it. A
  cast the host cannot do is a fault.
* A structure column reads its values as rows of a frame of its fields (`Rows.build`).
-/

namespace Schematic

namespace Value

/-- The items of a value as the host iterates it, or the fault for a value without a length. -/
def hostItems : Value → Except Fault (List Value)
  | .str s => .ok (s.toList.map fun c => .str (String.singleton c))
  | .bytes data => .ok (data.map fun b => .int b.toNat)
  | .list xs => .ok xs
  | .tuple xs => .ok xs
  | .dict es => .ok (es.map (·.1))
  | v => .error (.noLength v.qualifiedTypeName)

/-- Whether a value is a boolean or an integer, which date columns read as counts. -/
def isCount : Value → Bool
  | .bool _ | .int _ => true
  | _ => false

end Value

namespace ColumnType

/-- Values read by the reader of the flat type `t`, or, when one is refused, converted and
built strictly as `t`. -/
def typed (n : Naming) (t : ColumnType) (vs : List Value) : Host (List Cell) :=
  match t.readAll vs with
  | .ok cells => pure cells
  | .error _ => do Host.lift (Cell.strict n t (← vs.mapM (Cell.ofValue n true false)))

/-- A date or date-time column named `name` whose first value is `first`, not an integer:
built in the type of its first cell, then texts read as dates or date-times and dates turned
to date-times for a date-time column. -/
def temporal (n : Naming) (name : String) (t : ColumnType) (first : Value) (vs : List Value) :
    Host (ColumnType × List Cell) := do
  if first matches .float _ then
    throw (.notTemporal (if t == .date then "date" else "datetime"))
  let cells ← vs.mapM (Cell.ofValue n true true)
  let s := Cell.infer cells
  let built ← Host.lift (Cell.strict n s cells)
  match t, s with
  | _, .string => Host.lift (DateFormat.column n name t built)
  | .datetime _, .date => return (.datetime false, built.map (Cell.cast (.datetime false)))
  | _, s => return (s, built)

/-- A flat column named `name` from its values. -/
def flat (n : Naming) (name : String) (t : ColumnType) (vs : List Value) :
    Host (ColumnType × List Cell) :=
  match t, vs.find? (!· matches .none) with
  | .date, some v | .datetime _, some v =>
    if v.isCount then (t, ·) <$> typed n t vs else temporal n name t v vs
  | _, _ => (t, ·) <$> typed n t vs

/-- List cells cast to lists of `inner`, or the fault of the first whose items cannot be. -/
def castLists (inner : ColumnType) (cells : List Cell) : Except Fault (List Cell) :=
  cells.mapM fun c => match c with
    | .list t items => match castFault? t inner with
      | some f => .error f
      | none => .ok (.list inner (Cell.castAll inner items))
    | c => .ok c

/-- The cells of a column named `name` of type `t` built from the values given for it, with the
type the column ends up with. -/
def build (n : Naming) (name : String) : ColumnType → List Value →
    Host (ColumnType × List Cell)
  | .null, vs => pure (.null, vs.map fun _ => .null)
  | .list inner, vs => do
    let cells ← vs.mapM fun v => match v with
      | .none => pure Cell.null
      | v => do
        let (t, items) ← build n "" inner (← Host.lift v.hostItems)
        pure (Cell.list t items)
    return (.list inner, ← Host.lift (castLists inner cells))
  | .struct fs, vs => do return (.struct fs, ← Rows.build n fs vs)
  | t, vs => flat n name t vs

end ColumnType

end Schematic
