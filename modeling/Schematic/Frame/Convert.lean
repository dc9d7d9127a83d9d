import Schematic.Frame.Build

/-!
# Host values as cells

`Cell.ofValue` turns a host value into a cell: none is missing, an integer is held exactly up to
128 bits, signed or not (a larger one is a fault), a date counts its days and a date-time its
microseconds (an aware one as the instant it names, marked as UTC), a mapping with text keys is
a structure whose field types are those of its values, and a list or a tuple is a list cell.

Any other value is a host object. Inside a list or a mapping, and wherever values are read
without a given type, it is kept as it is; a top-level value of a typed column is a fault
instead. The host remembers the classes whose values it has kept as objects, for the rest of
its life: a value of such a class is kept as an object everywhere. Conversion therefore runs in
`Host`, which carries those classes from one conversion to the next, and past faults.

How a list becomes a list cell is chosen from its first twenty-five items, converted first:

* When the first of them that is not missing is a date or a date-time, every item is built
  strictly in its type (`Cell.temporalItems`); date-times of the other marking have no
  supertype with it.
* Otherwise the types of those items must meet leniently (`ColumnType.looseSupertype?`). When
  they are all of one flat kind, the whole list is read by that kind's reader (`Cell.readItems`):
  integers as 64-bit integers, then as unsigned ones when one is too large; doubles, truth
  values, texts and byte strings as themselves. A list the reader refuses has every item
  converted, their types must meet (`ColumnType.supertype?`), and it is built strictly in the
  type of its first item holding more than missing values (`Cell.fallbackItems`).
* Any other list has every item converted and is built strictly in the type its first items meet
  in when that is a list or a structure type, and in the type of its first item holding more
  than missing values otherwise; when the type its first items meet in has none in it, the
  types of all items must meet instead (`Cell.mixedItems`).

Conversion may also build lists leniently, as it does for the nested fields of a structure
row: a list that is not read by its reader is then built in the supertype of its items, whose
cells are read as that type where they can be (`Cell.lenient`).

A column's own reader (`ColumnType.read`) takes values of its type and those that convert to
it without loss of kind: booleans and integers for integers and doubles, and integers for dates
and date-times as counts of days and microseconds.
-/

namespace Schematic

/-- Conversion of host values to cells: it may raise a fault, and it carries the host classes
whose values have been kept as objects. -/
abbrev Host := ExceptT Fault (StateM (List String))

namespace Host

/-- A result of building cells, as a conversion. -/
def lift {α : Type} (r : Except Fault α) : Host α := ExceptT.mk (pure r)

/-- A value of a class the host has no cells for: kept as an object when `objects` holds or its
class was kept before, the class then remembered; a fault otherwise. -/
def object (n : Naming) (objects : Bool) (v : Value) : Host Cell := do
  let known ← get
  if objects || known.contains v.typeName then
    if !known.contains v.typeName then set (known ++ [v.typeName])
    return .object v
  else throw (.unconvertible (v.plain n))

end Host

/-- How a column's own reader takes a value: as a cell, or refused as an integer out of its
range, or as a value of another kind. -/
inductive Reading where
  | cell (c : Cell)
  | overflow
  | mismatch

namespace ColumnType

/-- A value as the reader of a column of type `t` takes it. -/
def read (t : ColumnType) (v : Value) : Reading :=
  let count (lo hi : Int) (make : Int → Cell) : Reading := match v with
    | .bool b => .cell (make (if b then 1 else 0))
    | .int i => if lo ≤ i && i < hi then .cell (make i) else .overflow
    | _ => .mismatch
  match v, t with
  | .none, _ => .cell .null
  | _, .int64 => count (Cell.range .int64).1 (Cell.range .int64).2 .integer
  | _, .uint64 => count 0 (Nat.pow 2 64) .integer
  | _, .date => count (-(Nat.pow 2 31 : Int)) (Nat.pow 2 31) .date
  | _, .datetime u => count (Cell.range .int64).1 (Cell.range .int64).2 (.datetime · u)
  | .bool b, .float64 => .cell (.float (if b then Cell.one else 0))
  | .int i, .float64 =>
    let bits := Cell.nearest i
    if (Binary.ofBits bits).isFinite then .cell (.float bits) else .overflow
  | .float bits, .float64 => .cell (.float bits)
  | .str s, .string => .cell (.text s)
  | .bool b, .boolean => .cell (.boolean b)
  | .bytes data, .binary => .cell (.binary data)
  | _, _ => .mismatch

/-- Values as the reader of a column of type `t` takes them, or whether the first refused one
was an integer out of range. -/
def readAll (t : ColumnType) : List Value → Except Bool (List Cell)
  | [] => .ok []
  | v :: vs => match t.read v with
    | .cell c => (readAll t vs).map (c :: ·)
    | .overflow => .error true
    | .mismatch => .error false

end ColumnType

namespace Cell

/-- Whether a cell is a date or a date-time. -/
def isTemporal : Cell → Bool
  | .date _ | .datetime _ _ => true
  | _ => false

/-- Items whose first is a date or a date-time: built strictly in its type, where date-times of
the other marking are a fault as types without a supertype, or leniently in the supertype of
all items when not `strictly`. -/
def temporalItems (n : Naming) (strictly : Bool) (cells : List Cell) :
    Except Fault (ColumnType × List Cell) := do
  if !strictly then
    let s ← meetAll (distinctTypes cells)
    return (s, ← lenient n s cells)
  let t := infer cells
  if let .datetime u := t then
    if let some c := cells.find? (fun c => match c with
        | .datetime _ v => v != u
        | _ => false) then
      throw (.noSupertype t.shortName c.type.shortName)
  return (t, ← strict n t cells)

/-- A list read by the reader of the flat kind `k`, or none when the reader refuses an item:
integers as 64-bit integers, or as unsigned ones when one is too large, booleans taken as
counts either way; doubles as themselves only; other kinds by their column's reader. -/
def readItems (k : ColumnType) (xs : List Value) : Option (ColumnType × List Cell) :=
  match k with
  | .int64 => match ColumnType.int64.readAll xs with
    | .ok cells => some (.int64, cells)
    | .error true => (ColumnType.uint64.readAll xs).toOption.map (.uint64, ·)
    | .error false => none
  | .float64 => (xs.mapM fun (v : Value) => match v with
      | .none => some Cell.null
      | .float bits => some (.float bits)
      | _ => none).map (.float64, ·)
  | t => (t.readAll xs).toOption.map (t, ·)

/-- Items that the reader refused: their types must meet, and they are built strictly in the
type of the first holding more than missing values, or leniently in their supertype when not
`strictly`. -/
def fallbackItems (n : Naming) (strictly : Bool) (cells : List Cell) :
    Except Fault (ColumnType × List Cell) := do
  let s ← meetAll (distinctTypes cells)
  if !strictly then return (s, ← lenient n s cells)
  let t := infer cells
  return (t, ← strict n t cells)

/-- Items of mixed kinds whose first ones met leniently in `s`. When `s` has none in it, the
types of all items must meet, and their supertype takes its place. Built leniently in it when
not `strictly`; otherwise strictly, in it when it is a list or a structure type, else in the
type of the first item holding more than missing values. -/
def mixedItems (n : Naming) (strictly : Bool) (s : ColumnType) (cells : List Cell) :
    Except Fault (ColumnType × List Cell) := do
  let s ← if s.holdsNull then meetAll (distinctTypes cells) else pure s
  if !strictly then return (s, ← lenient n s cells)
  let t := if s.isFlat then infer cells else s
  return (t, ← strict n t cells)

mutual

/-- A host value as a cell; host objects are kept when `objects` holds or their class was kept
before, and are a fault otherwise. Lists inside are built strictly when `strictly` holds. -/
def ofValue (n : Naming) (strictly objects : Bool) : Value → Host Cell
  | .none => pure .null
  | .bool b => pure (.boolean b)
  | .int i =>
    if fitsSigned 128 i || (0 ≤ i && i < (Nat.pow 2 128 : Int)) then pure (.integer i)
    else throw (.integerBeyondColumns i)
  | .float bits => pure (.float bits)
  | .str s => pure (.text s)
  | .bytes data => pure (.binary data)
  | .date d => pure (.date d.epochDay)
  | .datetime t =>
    pure (if t.aware then .datetime t.instant true else .datetime t.wallMicros false)
  | .list xs => listOf n strictly xs
  | .tuple xs => listOf n strictly xs
  | .dict es => structOf n strictly es
  | v => Host.object n objects v
termination_by v => sizeOf v

/-- The items of a list as a list cell. -/
def listOf (n : Naming) (strictly : Bool) (xs : List Value) : Host Cell := do
  if xs.isEmpty then return .list .null []
  let head ← (xs.attach.take 25).mapM fun x => ofValue n strictly true x.1
  let all : Host (List Cell) := do
    return head ++ (← (xs.attach.drop 25).mapM fun x => ofValue n strictly true x.1)
  let (t, cells) ← if (head.find? (!·.isNull)).any isTemporal then
      do Host.lift (temporalItems n strictly (← all))
    else do
      let s ← Host.lift (meetAllBy ColumnType.looseSupertype? (distinctTypes head))
      if s.isPrimitive && (distinctKinds head).length == 1 then
        match readItems s.kind xs with
        | some read => pure read
        | none => do Host.lift (fallbackItems n strictly (← all))
      else do Host.lift (mixedItems n strictly s (← all))
  return .list t cells
termination_by sizeOf xs
decreasing_by
  all_goals
    have := List.sizeOf_lt_of_mem x.2
    omega

/-- The entries of a mapping as a structure cell, each key text. -/
def structOf (n : Naming) (strictly : Bool) (es : List (Value × Value)) : Host Cell := do
  let fields ← es.attach.mapM fun ⟨(key, v), h⟩ => do
    have : sizeOf v < sizeOf es := by
      have := List.sizeOf_lt_of_mem h
      simp only [Prod.mk.sizeOf_spec] at this
      omega
    let k ← match key with
      | .str k => pure k
      | key => throw (.keyNotText key.typeName)
    return (k, ← ofValue n strictly true v)
  return .struct (fields.map fun (k, c) => (k, c.type)) (fields.map (·.2))
termination_by sizeOf es

end

end Cell

end Schematic
