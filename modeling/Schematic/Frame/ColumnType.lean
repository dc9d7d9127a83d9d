import Schematic.Fault

/-!
# Column types

The types of a frame's columns and of the cells inside them. Every type has two names:
`ColumnType.name`, as faults about building a column write it (`Int64`, `Datetime('μs')`,
`List(Float64)`, `Struct({'k': String})`), and `ColumnType.shortName`, as faults about rows
write it (`i64`, `datetime[μs]`, `list[f64]`, `struct[1]`).

Date-times are counted in microseconds; a date-time column is either naive or marked as UTC.

Two types meet in a *supertype* (`ColumnType.supertype?`), the type that a list holding cells
of both is built with: none meets anything, booleans give way to numbers, integers to wider
integers and to doubles, everything flat to text, text to bytes, a date to a date-time, and
lists and structures meet field by field. Other pairs have no supertype: a list meets no flat
type, and a 128-bit integer meets no date. A 64-bit integer and an unsigned 128-bit one meet
in the 64-bit type, which then refuses the larger integer.

The first items of a list meet more leniently (`ColumnType.looseSupertype?`): text takes in
every type but bytes, bytes every other flat type, a structure every flat type field by field,
and the type of empty lists gives way to any type.

Not every type casts to every other (`ColumnType.castFault?`): host objects cast to nothing
else, byte strings only to text, text neither to truth values nor to dates or date-times, dates
and date-times neither to truth values nor to byte strings, and lists only to lists. A structure
cast to a flat type casts each of its fields to it. The fault names the two flat types by the
names of their storage (`ColumnType.storageName`).
-/

namespace Schematic

/-- The type of a column, or of a cell inside one. -/
inductive ColumnType where
  /-- Only missing cells. -/
  | null
  | boolean
  | int64
  | uint64
  | int128
  | uint128
  | float64
  | string
  | binary
  | date
  /-- Date-times in microseconds, naive or marked as UTC. -/
  | datetime (utc : Bool)
  /-- Host objects kept as they are. -/
  | object
  | list (element : ColumnType)
  | struct (fields : List (String × ColumnType))
  deriving Inhabited

namespace ColumnType

mutual

/-- Equality of types: the same constructor, with equal parts. -/
def same : ColumnType → ColumnType → Bool
  | .null, .null | .boolean, .boolean | .int64, .int64 | .uint64, .uint64 | .int128, .int128
  | .uint128, .uint128 | .float64, .float64 | .string, .string | .binary, .binary | .date, .date
  | .object, .object => true
  | .datetime u, .datetime v => u == v
  | .list a, .list b => same a b
  | .struct fs, .struct gs => sameFields fs gs
  | _, _ => false

/-- Equality of the fields of two structure types, in order. -/
def sameFields : List (String × ColumnType) → List (String × ColumnType) → Bool
  | [], [] => true
  | (n, t) :: fs, (m, u) :: gs => n == m && same t u && sameFields fs gs
  | _, _ => false

end

instance : BEq ColumnType := ⟨same⟩

mutual

/-- The name of a type, as faults about building a column write it. -/
def name : ColumnType → String
  | .null => "Null"
  | .boolean => "Boolean"
  | .int64 => "Int64"
  | .uint64 => "UInt64"
  | .int128 => "Int128"
  | .uint128 => "UInt128"
  | .float64 => "Float64"
  | .string => "String"
  | .binary => "Binary"
  | .date => "Date"
  | .datetime false => "Datetime('μs')"
  | .datetime true => "Datetime('μs', 'UTC')"
  | .object => "Object"
  | .list t => "List(" ++ t.name ++ ")"
  | .struct fs => "Struct(\x7b" ++ fieldNames fs ++ "\x7d)"

/-- The fields of a structure type as `'name': type`, separated by commas. -/
def fieldNames : List (String × ColumnType) → String
  | [] => ""
  | [(n, t)] => "'" ++ n ++ "': " ++ t.name
  | (n, t) :: fs => "'" ++ n ++ "': " ++ t.name ++ ", " ++ fieldNames fs

end

/-- The short name of a type, as faults about rows write it. -/
def shortName : ColumnType → String
  | .null => "null"
  | .boolean => "bool"
  | .int64 => "i64"
  | .uint64 => "u64"
  | .int128 => "i128"
  | .uint128 => "u128"
  | .float64 => "f64"
  | .string => "str"
  | .binary => "binary"
  | .date => "date"
  | .datetime false => "datetime[μs]"
  | .datetime true => "datetime[μs, UTC]"
  | .object => "object"
  | .list t => "list[" ++ t.shortName ++ "]"
  | .struct fs => "struct[" ++ toString fs.length ++ "]"

/-- Types whose cells are single numbers, truth values, texts or byte strings. -/
def isPrimitive : ColumnType → Bool
  | .boolean | .int64 | .uint64 | .int128 | .uint128 | .float64 | .string | .binary => true
  | _ => false

/-- The integer types. -/
def isInteger : ColumnType → Bool
  | .int64 | .uint64 | .int128 | .uint128 => true
  | _ => false

/-- The number types. -/
def isNumeric (t : ColumnType) : Bool := t.isInteger || t == .float64

/-- Types without nesting. -/
def isFlat : ColumnType → Bool
  | .list _ | .struct _ => false
  | _ => true

/-- The rank of a number type in the order in which numbers give way. -/
def numericRank : ColumnType → Nat
  | .boolean => 0
  | .int64 => 1
  | .uint64 => 2
  | .int128 => 3
  | .uint128 => 4
  | _ => 5

/-- The type of the field named `n`, with a bound on its size for recursion over it. -/
def fieldIn (n : String) :
    (gs : List (String × ColumnType)) → Option { u : ColumnType // sizeOf u < sizeOf gs }
  | [] => none
  | (m, u) :: rest =>
    if m == n then some ⟨u, by simp only [List.cons.sizeOf_spec, Prod.mk.sizeOf_spec]; omega⟩
    else (fieldIn n rest).map fun v =>
      ⟨v.1, by have := v.2; simp only [List.cons.sizeOf_spec]; omega⟩

/-- The types of two numbers meet in the one that comes later in the order in which numbers
give way; dates and date-times meet numbers as their counts. -/
def flatSupertype? (a b : ColumnType) : Option ColumnType :=
  let number (t : ColumnType) : Bool := t.isNumeric || t == .boolean
  if a == b then some a
  else if (a == .uint128 && b == .int64) || (a == .int64 && b == .uint128) then some .int64
  else if number a && number b then some (if numericRank a ≥ numericRank b then a else b)
  else if a == .binary || b == .binary then
    if a == .string || b == .string then some .binary else none
  else if a == .string || b == .string then
    if a == .object || b == .object then none else some .string
  else match a, b with
    | .date, .datetime u | .datetime u, .date => some (.datetime u)
    | .datetime u, .datetime v => some (.datetime (u || v))
    | .date, t | t, .date | .datetime _, t | t, .datetime _ =>
      if t == .uint128 || t == .int128 then none
      else if t.isInteger then some .int64 else if t == .float64 then some t else none
    | _, _ => none

mutual

/-- The type in which cells of two types meet, when there is one. -/
def supertype? : ColumnType → ColumnType → Option ColumnType
  | .null, t => some t
  | t, .null => some t
  | .list a, .list b => (supertype? a b).map .list
  | .struct fs, .struct gs => (meetFields fs gs).map fun named =>
    .struct (named ++ gs.filter fun g => !fs.any (·.1 == g.1))
  | .list _, _ | _, .list _ | .struct _, _ | _, .struct _ => none
  | a, b => flatSupertype? a b
termination_by a b => sizeOf a + sizeOf b

/-- The fields of a first structure type, each met with the field of the same name of a second
when it has one. -/
def meetFields : List (String × ColumnType) → List (String × ColumnType) →
    Option (List (String × ColumnType))
  | [], _ => some []
  | (n, t) :: rest, gs => do
    let s ← match fieldIn n gs with
      | some u => supertype? t u.1
      | none => some t
    return (n, s) :: (← meetFields rest gs)
termination_by fs gs => sizeOf fs + sizeOf gs
decreasing_by
  all_goals simp only [List.cons.sizeOf_spec, Prod.mk.sizeOf_spec]
  all_goals omega

end

mutual

/-- The type in which the first items of a list meet, as the host checks them before it picks
how to read the list: as `supertype?`, but text takes in every type but bytes and host objects,
bytes every other flat type but host objects, a structure every flat type field by field, and
the type of empty lists gives way to any type. -/
def looseSupertype? : ColumnType → ColumnType → Option ColumnType
  | .null, t | t, .null => some t
  | .list .null, t | t, .list .null => some t
  | .list a, .list b => (looseSupertype? a b).map .list
  | .struct fs, .struct gs => (looseFields fs gs).map fun named =>
    .struct (named ++ gs.filter fun g => !fs.any (·.1 == g.1))
  | .string, .binary | .binary, .string => some .binary
  | .string, .object | .object, .string => none
  | .string, _ | _, .string => some .string
  | .struct fs, t | t, .struct fs => if t.isFlat then (looseFieldsWith fs t).map .struct else none
  | .list _, _ | _, .list _ => none
  | .binary, t | t, .binary => if t == .object then none else some .binary
  | a, b => flatSupertype? a b
termination_by a b => sizeOf a + sizeOf b

/-- The fields of a first structure type, each met leniently with the field of the same name
of a second when it has one. -/
def looseFields : List (String × ColumnType) → List (String × ColumnType) →
    Option (List (String × ColumnType))
  | [], _ => some []
  | (n, t) :: rest, gs => do
    let s ← match fieldIn n gs with
      | some u => looseSupertype? t u.1
      | none => some t
    return (n, s) :: (← looseFields rest gs)
termination_by fs gs => sizeOf fs + sizeOf gs
decreasing_by
  all_goals simp only [List.cons.sizeOf_spec, Prod.mk.sizeOf_spec]
  all_goals omega

/-- Every field of a structure type met leniently with the flat type `t`. -/
def looseFieldsWith : List (String × ColumnType) → ColumnType →
    Option (List (String × ColumnType))
  | [], _ => some []
  | (n, u) :: rest, t => do
    return (n, ← looseSupertype? u t) :: (← looseFieldsWith rest t)
termination_by fs t => sizeOf fs + sizeOf t
decreasing_by
  all_goals simp only [List.cons.sizeOf_spec, Prod.mk.sizeOf_spec]
  all_goals omega

end

mutual

/-- Whether a type has none somewhere in it: none itself, or a list or a structure of it. -/
def holdsNull : ColumnType → Bool
  | .null => true
  | .list t => holdsNull t
  | .struct fs => fieldsHoldNull fs
  | _ => false

/-- Whether the type of some field has none somewhere in it. -/
def fieldsHoldNull : List (String × ColumnType) → Bool
  | [] => false
  | (_, t) :: fs => holdsNull t || fieldsHoldNull fs

end

/-- The kind of values a type holds, as the host tells values apart: integers of every width
are one kind, and so are lists of every element type, structures of all fields, and date-times
of either marking. -/
def kind : ColumnType → ColumnType
  | .uint64 | .int128 | .uint128 => .int64
  | .list _ => .list .null
  | .struct _ => .struct []
  | .datetime _ => .datetime false
  | t => t

/-- The name of a type's storage, as faults about casts write it: dates are stored as 32-bit
integers and date-times as 64-bit ones. -/
def storageName : ColumnType → String
  | .null => "Null"
  | .boolean => "Boolean"
  | .int64 | .datetime _ => "Int64"
  | .uint64 => "UInt64"
  | .int128 => "Int128"
  | .uint128 => "UInt128"
  | .float64 => "Float64"
  | .string => "Utf8View"
  | .binary => "BinaryView"
  | .date => "Int32"
  | .object => "Object"
  | .list _ => "LargeList"
  | .struct _ => "Struct"

/-- Whether cells of the flat type `a` cast to the flat type `b`. -/
def flatCastable (a b : ColumnType) : Bool :=
  match a, b with
  | .null, _ | _, .null => true
  | .object, .object => true
  | .object, _ | _, .object => false
  | .binary, t => t == .binary || t == .string
  | .string, .boolean => false
  | .boolean, .binary => false
  | .date, .boolean | .datetime _, .boolean | .date, .binary | .datetime _, .binary => false
  | _, _ => true

mutual

/-- The fault of casting cells of type `a` to type `b`, when the host cannot: the first pair of
flat types, inside lists and field by field, that does not cast. -/
def castFault? : ColumnType → ColumnType → Option Fault
  | .list a, .list b => castFault? a b
  | .struct fs, .struct gs => fieldsCastFault? fs gs
  | .struct fs, b =>
    if b.isFlat then fieldsToFault? fs b else some (.unsupportedCast "Struct" b.storageName)
  | .null, _ | _, .null => none
  | .list a, b => some (.listToFlat a.name b.name)
  | .string, .datetime _ => some (.textToTemporal "datetime")
  | .string, .date => some (.textToTemporal "date")
  | a, b =>
    if a.isFlat && b.isFlat && flatCastable a b then none
    else some (.unsupportedCast a.storageName b.storageName)

/-- The first fault of casting fields to fields, by position. -/
def fieldsCastFault? : List (String × ColumnType) → List (String × ColumnType) → Option Fault
  | (_, a) :: fs, (_, b) :: gs => (castFault? a b).orElse fun _ => fieldsCastFault? fs gs
  | _, _ => none

/-- The first fault of casting every field to the type `b`. -/
def fieldsToFault? : List (String × ColumnType) → ColumnType → Option Fault
  | (_, a) :: fs, b => (castFault? a b).orElse fun _ => fieldsToFault? fs b
  | [], _ => none

end

/-- Whether cells of type `a` cast to type `b`. -/
def castable (a b : ColumnType) : Bool := (castFault? a b).isNone

end ColumnType

end Schematic
