import Schematic.Frame.Cast

/-!
# Building cells of one type

A list of cells becomes the cells of one column type in one of three ways.

* *Strictly* (`Cell.strict`): every cell must already be of the type, but for the width of
  integers, booleans taken as numbers, and the marking of date-times; the first cell that is
  not is a fault naming the type and the cell. A double column takes no integer. A list cell's
  items are cast to the element type, and a cast that loses an item, or that the host cannot
  do, makes the whole list a fault. A structure type takes structure cells, missing cells, and
  lists holding nothing but missing items, which become rows of missing fields; it takes each
  field by name from them, field after field, and a field typed as none takes the type of its
  first value instead.
* *Leniently* (`Cell.lenient`): a cell of another type is read as the type where it can be
  (numbers by extraction, anything as its display for text) and is missing otherwise. A list
  whose items cannot be cast to the element type at all becomes one missing row per item, so
  that the column grows; structure items cast to a flat element type stay structures, which a
  list cannot hold. A structure type reads a list cell as a row, its items by position; a field
  typed as none takes the supertype of its values, but a list cell's item there is cast to
  none, which fails for any value.
* As a *row buffer* takes them (`Cell.take?`): a field of a flat type takes a cell that reads as
  the type, numbers by extraction; nested fields take every cell and are built leniently at the
  end (`Cell.buffered`).

Either way, a structure with a field of host objects, and a list of host objects, are faults.

`Cell.infer` gives the type that strict building takes when none is given: that of the first
cell holding more than missing values.
-/

namespace Schematic

namespace Cell

/-- The fault for a cell that a column of type `t` does not take. -/
def refusal (n : Naming) (t : ColumnType) (c : Cell) : Fault :=
  .cellType t.name c.type.name (c.display n)

/-- The type of the first cell holding more than missing values, else of the first cell that
is not missing, else none. -/
def infer (cs : List Cell) : ColumnType :=
  match cs.find? (!·.nestedNull) with
  | some c => c.type
  | none => match cs.find? (!·.isNull) with
    | some c => c.type
    | none => .null

/-- Types without repetition, in the order they first appear. -/
def distinct (ts : List ColumnType) : List ColumnType :=
  ts.foldl (fun acc t => if acc.contains t then acc else acc ++ [t]) []

/-- The distinct types of cells, in the order they first appear. -/
def distinctTypes (cs : List Cell) : List ColumnType := distinct (cs.map type)

/-- The distinct kinds of the cells that are not missing. -/
def distinctKinds (cs : List Cell) : List ColumnType :=
  distinct ((cs.filter (!·.isNull)).map (·.type.kind))

/-- The meeting of types by `meet`, one after another from none; a pair that does not meet
is a fault naming the type met so far and the next. -/
def meetAllBy (meet : ColumnType → ColumnType → Option ColumnType) (ts : List ColumnType) :
    Except Fault ColumnType :=
  ts.foldlM (fun acc t => match meet acc t with
    | some s => .ok s
    | none => .error (.noSupertype acc.shortName t.shortName)) .null

/-- The supertype of types, met one after another from none. -/
def meetAll (ts : List ColumnType) : Except Fault ColumnType := meetAllBy ColumnType.supertype? ts

/-- A cell as a column of the flat type `t` takes it strictly. -/
def strictFlat (n : Naming) (t : ColumnType) (c : Cell) : Except Fault Cell :=
  let refuse : Except Fault Cell := .error (refusal n t c)
  match c, t with
  | .null, _ => .ok .null
  | .boolean b, .boolean => .ok (.boolean b)
  | .integer i, .int64 | .integer i, .uint64 | .integer i, .int128 | .integer i, .uint128 =>
    if (range t).1 ≤ i && i < (range t).2 then .ok (.integer i) else refuse
  | .boolean b, .int64 | .boolean b, .uint64 | .boolean b, .int128 | .boolean b, .uint128 =>
    .ok (.integer (if b then 1 else 0))
  | .boolean b, .float64 => .ok (.float (if b then one else 0))
  | .float bits, .float64 => .ok (.float bits)
  | .text s, .string => .ok (.text s)
  | .binary data, .binary => .ok (.binary data)
  | .date days, .date => .ok (.date days)
  | .datetime micros _, .datetime u => .ok (.datetime micros u)
  | c, .object => .ok c
  | _, _ => refuse

/-- The number of missing cells. -/
def nullCount (cs : List Cell) : Nat := (cs.filter isNull).length

/-- List cells as a column of lists of `u` takes them strictly: items cast to `u`, and a fault
when a cast loses an item or cannot be done, or a cell is not a list. Lists of none keep their
items as they are; lists of host objects are a fault. -/
def strictLists (u : ColumnType) (cs : List Cell) : Except Fault (List Cell) := do
  if u == .object then throw (.nestedObjectTypes true)
  let one : Cell → Option Cell
    | .null => some .null
    | .list t items =>
      if u == .null then some (.list t items)
      else if !ColumnType.castable t u then none
      else
        let cast := castAll u items
        if nullCount cast == nullCount items then some (.list u cast) else none
    | _ => none
  match cs.mapM one with
  | some cells => .ok cells
  | none => .error (.listCellType (ColumnType.list u).name)

/-- List cells as a column of lists of `u` takes them leniently: items cast to `u`, a list
whose items cannot be cast at all giving one missing row per item, and a cell that is not a
list missing. Lists of none keep their items as they are; lists of host objects are a fault. -/
def lenientLists (u : ColumnType) (cs : List Cell) : Except Fault (List Cell) := do
  if u == .object then throw (.nestedObjectTypes false)
  if u.isFlat && cs.any (fun c => match c with
      | .list (.struct _) _ => true
      | _ => false) then
    throw .listItemTypes
  return cs.flatMap fun c => match c with
    | .list t items =>
      if u == .null then [.list t items]
      else if ColumnType.castable t u then [.list u (castAll u items)]
      else items.map fun _ => .null
    | _ => [.null]

/-- The value of the field `name` of a structure cell; missing for other cells and fields. -/
def fieldOf (name : String) : Cell → Cell
  | .struct fs vs => (((fs.zip vs).find? (·.1.1 == name)).map (·.2)).getD .null
  | _ => .null

/-- Rows of a structure column from the cells of each of its fields: a row whose cell was a
structure holds every field, other rows are missing. -/
def assemble (fs : List (String × ColumnType)) (columns : List (List Cell)) (cs : List Cell) :
    List Cell :=
  cs.zipIdx.map fun (c, i) => match c with
    | .struct _ _ => .struct fs (columns.map fun col => col.getD i .null)
    | _ => .null

/-- A cell as a row of the structure column of type `t` takes it strictly: a structure or a
missing cell as it is, a list of nothing but missing items as a structure without fields, and
any other cell a fault. -/
def structRow (n : Naming) (t : ColumnType) (c : Cell) : Except Fault Cell :=
  match c with
  | .null | .struct _ _ => .ok c
  | .list _ items => if items.all isNull then .ok (.struct [] []) else .error (refusal n t c)
  | c => .error (refusal n t c)

/-- Cells of no given type taken strictly in the type of the first of them: cells of a nested
type must already have it. -/
def strictInferred (n : Naming) (cs : List Cell) : Except Fault (ColumnType × List Cell) :=
  let t := infer cs
  if t.isFlat then (t, ·) <$> cs.mapM (strictFlat n t)
  else match cs.find? fun c => !c.isNull && !(c.type == t) with
    | some c => .error (refusal n t c)
    | none => .ok (t, cs)

/-- The fault of a structure with a field of host objects. -/
def objectField (wrapped : Bool) (fs : List (String × ColumnType)) : Except Fault Unit :=
  if fs.any (·.2 == .object) then .error (.nestedObjects wrapped) else .ok ()

mutual

/-- Cells as a column of type `t` takes them strictly. -/
def strict (n : Naming) : ColumnType → List Cell → Except Fault (List Cell)
  | .null, cs => .ok (cs.map fun _ => .null)
  | .list u, cs => strictLists u cs
  | .struct fs, cs => do
    let rows ← cs.mapM (structRow n (.struct fs))
    let built ← strictFields n fs rows
    let fields := built.map fun (name, t, _) => (name, t)
    objectField true fields
    return assemble fields (built.map (·.2.2)) rows
  | t, cs => cs.mapM (strictFlat n t)

/-- The type and the cells of each field of a structure column, built strictly from the
field's values, one field after another. -/
def strictFields (n : Naming) : List (String × ColumnType) → List Cell →
    Except Fault (List (String × ColumnType × List Cell))
  | [], _ => .ok []
  | (name, t) :: fs, cs => do
    let values := cs.map (fieldOf name)
    let (t, column) ← match t with
      | .null => strictInferred n values
      | t => (t, ·) <$> strict n t values
    return (name, t, column) :: (← strictFields n fs cs)

end

/-- A cell read leniently as the flat type `t`. -/
def lenientFlat (n : Naming) (t : ColumnType) (c : Cell) : Cell :=
  match c, t with
  | .null, _ => .null
  | c, .object => c
  | .boolean b, .boolean => .boolean b
  | .integer i, .boolean => .boolean (i != 0)
  | .float bits, .boolean => .boolean (!isZero bits)
  | _, .boolean => .null
  | c, .float64 => match c.float? with
    | some bits => .float bits
    | none => .null
  | .text s, .string => .text s
  | .binary _, .string => .null
  | c, .string => .text (c.display n)
  | .binary data, .binary => .binary data
  | .text s, .binary => .binary s.toUTF8.toList
  | .date days, .date => .date days
  | .datetime micros _, .date => .date (micros.tdiv 86400000000)
  | .integer _, .date | .float _, .date =>
    match c.integerIn? (-(Nat.pow 2 31 : Int)) (Nat.pow 2 31) with
    | some days => .date days
    | none => .null
  | .datetime micros _, .datetime u => .datetime micros u
  | .date days, .datetime u => .datetime (days * 86400000000) u
  | .integer _, .datetime u | .float _, .datetime u =>
    match c.integerIn? (range .int64).1 (range .int64).2 with
    | some micros => .datetime micros u
    | none => .null
  | c, u =>
    if u.isInteger then match c.integerIn? (range u).1 (range u).2 with
      | some i => .integer i
      | none => .null
    else .null

/-- A list cell as a row of the structure fields `fs`, its items by position; other cells as
they are. -/
def listRow (fs : List (String × ColumnType)) : Cell → Cell
  | .list _ items =>
    .struct ((fs.zip items).map fun ((k, _), c) => (k, c.type)) (items.take fs.length)
  | c => c

/-- The fault of casting to none the items that list cells hold at the place of the field
`name`, the `j`th: any item that is not missing fails, out of all `total` rows. -/
def nullFieldFault (n : Naming) (name : String) (j total : Nat) (cs : List Cell) :
    Option Fault :=
  let items := cs.filterMap fun c => match c with
    | .list _ items => items[j]?
    | _ => none
  match items.filter (!·.isNull) with
  | [] => none
  | failed@(first :: _) =>
    let source := match meetAll (distinct (failed.map type)) with
      | .ok t => t
      | .error _ => first.type
    some (.conversionFailed source.shortName "null" name failed.length total
      (listText (displays n failed)))

/-- The first fault of casting list cells' items to the fields typed as none. -/
def nullFieldsFault (n : Naming) (fs : List (String × ColumnType)) (cs : List Cell) :
    Option Fault :=
  fs.zipIdx.findSome? fun ((name, t), j) =>
    if t == .null then nullFieldFault n name j cs.length cs else none

/-- Cells of no given type read leniently in the supertype of their types; cells of a nested
supertype are kept as they are. -/
def lenientInferred (n : Naming) (cs : List Cell) : Except Fault (ColumnType × List Cell) := do
  let t ← meetAll (cs.map type)
  return (t, if t.isFlat then cs.map (lenientFlat n t) else cs)

mutual

/-- Cells read leniently as a column of type `t`. -/
def lenient (n : Naming) : ColumnType → List Cell → Except Fault (List Cell)
  | .null, cs => .ok (cs.map fun _ => .null)
  | .list u, cs => lenientLists u cs
  | .struct fs, cs => do
    let rows := cs.map (listRow fs)
    let built ← lenientFields n fs rows
    if let some f := nullFieldsFault n fs cs then throw f
    let fields := built.map fun (name, t, _) => (name, t)
    objectField false fields
    return assemble fields (built.map (·.2.2)) rows
  | t, cs => .ok (cs.map (lenientFlat n t))

/-- The type and the cells of each field of a structure column, read leniently from the
field's values. -/
def lenientFields (n : Naming) : List (String × ColumnType) → List Cell →
    Except Fault (List (String × ColumnType × List Cell))
  | [], _ => .ok []
  | (name, t) :: fs, cs => do
    let values := cs.map (fieldOf name)
    let (t, column) ← match t with
      | .null => lenientInferred n values
      | t => (t, ·) <$> lenient n t values
    return (name, t, column) :: (← lenientFields n fs cs)

end

/-- Whether a row buffer of type `t` keeps every cell, to build them leniently at the end. -/
def keepsAll : ColumnType → Bool
  | .boolean | .int64 | .uint64 | .float64 | .string | .date | .datetime _ | .null => false
  | _ => true

/-- The cell a row buffer of type `t` takes for a row value, or none when it cannot take it:
a boolean from a number that is `1`, numbers by extraction, text from text and as the digits of
a 64-bit integer, a double or a boolean, dates and date-times from their own kind or from
numbers. A missing value is taken by every buffer. -/
def take? (t : ColumnType) (c : Cell) : Option Cell :=
  match c, t with
  | .null, _ => some .null
  | .boolean b, .boolean => some (.boolean b)
  | c, .boolean => (c.integerIn? 0 256).map fun v => .boolean (v == 1)
  | c, .float64 => c.float?.map .float
  | .text s, .string => some (.text s)
  | .integer i, .string => if fitsSigned 64 i then some (.text (toString i)) else none
  | .float bits, .string => some (.text (positional.write bits))
  | .boolean b, .string => some (.text (if b then "true" else "false"))
  | _, .string => none
  | .date days, .date => some (.date days)
  | .integer _, .date | .float _, .date =>
    (c.integerIn? (-(Nat.pow 2 31 : Int)) (Nat.pow 2 31)).map .date
  | _, .date => none
  | .datetime micros _, .datetime u => some (.datetime micros u)
  | .integer _, .datetime u | .float _, .datetime u =>
    (c.integerIn? (range .int64).1 (range .int64).2).map (.datetime · u)
  | _, .datetime _ => none
  | _, .null => none
  | c, u =>
    if keepsAll u then some c
    else (c.integerIn? (range u).1 (range u).2).map .integer

/-- The cells a row buffer of type `t` ends with, from the cells it took. -/
def buffered (n : Naming) (t : ColumnType) (cs : List Cell) : Except Fault (List Cell) :=
  if keepsAll t then lenient n t cs else .ok cs

end Cell

end Schematic
