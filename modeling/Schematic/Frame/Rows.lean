import Schematic.Frame.Convert
import Schematic.Value.Equality

/-!
# Rows of a structure column

A structure column is built as a small frame of its fields, one row per value, and the frame's
rows become the column's cells (`Rows.build`). A value given as none is an empty mapping
while the frame is built, and a missing row of the column afterwards.

How the values are read as rows is chosen by the first of them (`Value.rowShape`):

* a *mapping* makes every value a mapping read by name (`RowReader.named`); a value that is not a
  mapping is a fault. Without fields, the fields are the keys of the mappings in the order they
  first appear, and every key must be text;
* a *sequence* (a list, a tuple or a byte string) makes every value a sequence read by position
  (`RowReader.positional`); text and values that are not sequences are faults, and every row must be
  as long as the first. The first row's length must be the number of fields, and names the
  fields `column_0`, `column_1`, … when there are none;
* any other value makes the whole column a single row, the values being the row's values.

With fields given, each row is read, converted and taken by the fields' buffers (`Cell.take?`)
before the next is read (`Rows.fill`). A mapping's values are converted and taken one after
another, field after field, the value of a list or structure field converted leniently; a
sequence's values are all converted before the row's length is checked and any is taken. The
first fault in that order is the one raised. Without fields, every row is read and converted
first, and each field's type is then the supertype of its values' types (`Rows.inferred`).

The fields' columns then form a frame: columns of different lengths are a fault, and so is a
column of host objects. The column has as many rows as the frame.
-/

namespace Schematic

/-- How the values of a structure column are read as rows. -/
inductive RowShape where
  /-- Mappings, read by name. -/
  | mappings
  /-- Sequences, read by position. -/
  | sequences
  /-- The values themselves, as one row. -/
  | single

namespace Value

/-- The shape of rows a first value asks for. -/
def rowShape : Value → RowShape
  | .dict _ => .mappings
  | .list _ | .tuple _ | .bytes _ => .sequences
  | _ => .single

/-- A row read by position: the items of a list or a tuple, the bytes of a byte string; text
and any other value are faults. -/
def rowItems : Value → Except Fault (List Value)
  | .list xs | .tuple xs => .ok xs
  | .bytes data => .ok (data.map fun b => .int b.toNat)
  | .str _ => .error .textRow
  | v => .error (.notSequenceRow v.typeName)

/-- A row read by name: the entries of a mapping; any other value is a fault. -/
def rowEntries : Value → Except Fault (List (Value × Value))
  | .dict es => .ok es
  | v => .error (.notMappingRow v.typeName)

/-- The keys of a mapping's entries, each of which must be text. -/
def textKeys (es : List (Value × Value)) : Except Fault (List String) :=
  es.mapM fun (k, _) => match k with
    | .str s => .ok s
    | k => .error (.keyNotText k.typeName)

end Value

namespace Rows

/-- A cell taken by the buffer of the type `t`, or the fault for a cell it does not take. -/
def takeCell (n : Naming) (t : ColumnType) (c : Cell) : Except Fault Cell :=
  match Cell.take? t c with
  | some c => .ok c
  | none => .error (.appendValue (c.display n) c.type.shortName)

/-- The cells of a row taken by the buffers of the types `ts`, or the fault for the first cell a
buffer does not take. -/
def take (n : Naming) (ts : List ColumnType) (cells : List Cell) : Except Fault (List Cell) :=
  (ts.zip cells).mapM fun (t, c) => takeCell n t c

/-- The values of a row converted and taken by the buffers of the types `ts`, one after another:
values of list and structure fields are converted leniently. -/
def takeValues (n : Naming) (ts : List ColumnType) (values : List Value) : Host (List Cell) :=
  (ts.zip values).mapM fun (t, x) => do
    Host.lift (takeCell n t (← Cell.ofValue n (!Cell.keepsAll t) true x))

/-- A row read by name: the values of the fields `names` in a mapping, none for a field the
mapping lacks. -/
def byName (names : List String) (v : Value) : Except Fault (List Value) := do
  let es ← v.rowEntries
  return names.map fun k => (Value.lookup (.str k) es).getD .none

end Rows

/-- How the rows of a structure column are read: mappings by the names of their fields, or
sequences by position, `width` items each. -/
inductive RowReader where
  | named (names : List String)
  | positional (width : Nat)

namespace RowReader

/-- Row `i` read and converted: a sequence must have `width` items once they are converted. -/
def cells (n : Naming) : RowReader → Nat → Value → Host (List Cell)
  | .named names, _, v => do (← Host.lift (Rows.byName names v)).mapM (Cell.ofValue n true true)
  | .positional width, i, v => do
    let cells ← (← Host.lift v.rowItems).mapM (Cell.ofValue n true true)
    if cells.length != width then throw (.rowLength i cells.length width)
    return cells

/-- Row `i` read, converted and taken by the buffers of the types `ts`: a mapping's values field
after field, a sequence's once all of them are converted. -/
def taken (n : Naming) (ts : List ColumnType) : RowReader → Nat → Value → Host (List Cell)
  | .named names, _, v => do Rows.takeValues n ts (← Host.lift (Rows.byName names v))
  | r, i, v => do Host.lift (Rows.take n ts (← r.cells n i v))

end RowReader

namespace Rows

/-- Rows read one after another by `r`, row `i` taken by the buffers of `ts` before the next is
read: the cells each buffer took. -/
def fill (n : Naming) (ts : List ColumnType) (r : RowReader) :
    Nat → List Value → Host (List (List Cell))
  | _, [] => pure (ts.map fun _ => [])
  | i, v :: vs => do
    let taken ← r.taken n ts i v
    let rest ← fill n ts r (i + 1) vs
    return (taken.zip rest).map fun (c, col) => c :: col

/-- Every row read and converted by `r` in order. -/
def readAll (n : Naming) (r : RowReader) : Nat → List Value → Host (List (List Cell))
  | _, [] => pure []
  | i, v :: vs => do
    let row ← r.cells n i v
    return row :: (← readAll n r (i + 1) vs)

/-- Column `j` of rows, missing where a row is shorter. -/
def columnOf (rows : List (List Cell)) (j : Nat) : List Cell := rows.map (·.getD j .null)

/-- Rows read by `r` without given fields, `width` cells each: every row read first, then each
column typed by the supertype of its cells' types and taken by a buffer of that type. -/
def inferred (n : Naming) (width : Nat) (r : RowReader) (vs : List Value) :
    Host (List (ColumnType × List Cell)) := do
  let rows ← readAll n r 0 vs
  let ts ← Host.lift ((List.range width).mapM fun j =>
    Cell.meetAll (Cell.distinctTypes (columnOf rows j)))
  let taken ← Host.lift (rows.mapM (take n ts))
  return ts.zipIdx.map fun (t, j) => (t, columnOf taken j)

/-- The text keys of mapping rows in the order they first appear. -/
def keysOf (vs : List Value) : Except Fault (List String) :=
  vs.foldlM (fun acc v => do
    let ks ← Value.textKeys (← v.rowEntries)
    return ks.foldl (fun acc k => if acc.contains k then acc else acc ++ [k]) acc) []

/-- The columns of the fields `fs` from rows read by `r`, finished by their buffers; without
fields, the fields are `names` of `width` columns typed by supertypes. -/
def columns (n : Naming) (fs : List (String × ColumnType)) (names : List String) (width : Nat)
    (r : RowReader) (vs : List Value) : Host (List (String × ColumnType × List Cell)) := do
  let typed ← if fs.isEmpty then inferred n width r vs
    else do
      let cols ← fill n (fs.map (·.2)) r 0 vs
      pure ((fs.map (·.2)).zip cols)
  let named := (if fs.isEmpty then names else fs.map (·.1)).zip typed
  named.mapM fun (name, t, col) => do return (name, t, ← Host.lift (Cell.buffered n t col))

/-- The first pair of columns, in order, whose lengths differ. -/
def unequal : List (String × ColumnType × List Cell) → Option Fault
  | [] => none
  | (a, _, ca) :: rest =>
    match rest.find? fun (_, _, cb) => cb.length != ca.length with
    | some (b, _, cb) => some (.columnHeight a ca.length b cb.length)
    | none => unequal rest

/-- The names `column_0`, `column_1`, … of `width` fields. -/
def positional (width : Nat) : List String :=
  (List.range width).map fun j => "column_" ++ toString j

/-- The cells of a structure column with the fields `fs`, built from its values. -/
def build (n : Naming) (fs : List (String × ColumnType)) (vs : List Value) :
    Host (List Cell) := do
  let data := vs.map fun v => match v with
    | .none => Value.dict []
    | v => v
  let (cols, count) ← match data with
    | [] => pure (fs.map (fun (name, t) => (name, t, [])), 0)
    | first :: _ => match first.rowShape with
      | .mappings =>
        let names ← if fs.isEmpty then Host.lift (keysOf data) else pure (fs.map (·.1))
        let cols ← columns n fs names names.length (.named names) data
        pure (cols, data.length)
      | .sequences =>
        let width := match first.rowItems with
          | .ok xs => xs.length
          | .error _ => 0
        if !fs.isEmpty && fs.length != width then throw .columnCount
        let cols ← columns n fs (positional width) width (.positional width) data
        pure (cols, data.length)
      | .single =>
        let width := data.length
        if !fs.isEmpty && fs.length != width then throw .columnCount
        let cols ← columns n fs (positional width) width (.positional width) [.list data]
        pure (cols, 1)
  if let some f := unequal cols then throw f
  let fields := cols.map fun (name, t, _) => (name, t)
  Host.lift (Cell.objectField false fields)
  let height := match cols with
    | [] => count
    | (_, _, c) :: _ => c.length
  return (List.range height).map fun i =>
    if vs.getD i (.int 0) matches .none then .null
    else .struct fields (cols.map fun (_, _, c) => c.getD i .null)

end Rows

end Schematic
