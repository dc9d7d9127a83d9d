import Schematic.Check.Run
import Schematic.Frame.Column

/-!
# Validating frames

A frame is a list of named columns of equal length, with distinct names (`Column`); each column
is built from the values given for it by its type (`ColumnType.build`). Each row of a frame is
read as a record of column name to the host value of its cell (`Frame.rows`), and validated in
one fresh context, reset before every row. A violation is one message of a row that did not
validate: its row index, its path and its code.

Validating the records of the rows (`Frame.validateRows`) is the part that needs no frame: it
takes the records as they are read, one mapping per row.

A frame whose columns repeat a name or differ in length is refused before any row is read
(`Frame.checkShape`): the first column's name is looked for among the others, then every
column's length is compared with the first's, then each later column's name is looked for
among those after it. With `strict`, a frame with violations is refused,
the fault counting them and the rows they are in.

Columns are built in `Host`, whose remembered classes of host objects live in the store
(`Store.hostObjects`) and are kept even when a column fails.
-/

namespace Schematic

/-- A named column of cells, with the type it was built as. -/
structure Column where
  name : String
  type : ColumnType
  cells : List Cell

/-- The column built from the values given for it. -/
def Column.build (n : Naming) (name : String) (type : ColumnType) (values : List Value) :
    Host Column := do
  let (t, cells) ← type.build n name values
  return ⟨name, t, cells⟩

/-- The column built from the values given for it, with the store's classes of host objects,
which the building may add to. -/
def Column.make (n : Naming) (name : String) (type : ColumnType) (values : List Value) :
    Run Column := do
  let (r, known) := ((Column.build n name type values).run).run (← Store.read (·.hostObjects))
  Store.change fun s => { s with hostObjects := known }
  match r with
  | .ok c => return c
  | .error f => throw f

/-- A violation: the row's index, the message's path and its code. -/
structure Violation where
  row : Nat
  path : String
  code : String

namespace Violation

/-- Orders violations by row, then path, then code. -/
def before (a b : Violation) : Bool :=
  a.row < b.row || (a.row == b.row && (a.path < b.path || (a.path == b.path && a.code < b.code)))

end Violation

namespace Frame

/-- The number of rows: the length of the first column, none without columns. -/
def height : List Column → Nat
  | [] => 0
  | c :: _ => c.cells.length

/-- The record of row `i`: each column's name with the host value of its cell there. -/
def row (columns : List Column) (i : Nat) : Except Fault Value := do
  let entries ← columns.mapM fun c => do
    return (Value.str c.name, ← (c.cells.getD i .null).toValue)
  return .dict entries

/-- The records of every row, in order. -/
def rows (columns : List Column) : Except Fault (List Value) :=
  (List.range (height columns)).mapM (row columns)

/-- The first pair of columns, in order, that share a name. -/
def repeated : List Column → Option Fault
  | [] => none
  | c :: rest =>
    if rest.any (·.name == c.name) then some (.duplicateColumn c.name) else repeated rest

/-- Refuses columns that repeat a name or differ in length. -/
def checkShape (columns : List Column) : Except Fault Unit :=
  let fault : Option Fault := match columns with
    | [] => none
    | first :: rest =>
      if rest.any (·.name == first.name) then some (.duplicateColumn first.name)
      else match rest.find? (·.cells.length != first.cells.length) with
        | some c => some (.columnHeight c.name c.cells.length first.name first.cells.length)
        | none => repeated rest
  match fault with
  | some f => .error f
  | none => .ok ()

/-- Validates the records `rows` of a frame, the first being row `i`, in `ctx`, appending
each row's messages. -/
def scan (ctx : Nat) : List Value → Nat → List Violation → Run (List Violation)
  | [], _, acc => return acc
  | r :: rows, i, acc => do
    Context.reset ctx
    let valid ← Run.validate ctx r
    let acc ← if valid then pure acc else do
      let c ← Store.context ctx
      pure (acc ++ c.messages.map fun (p, m) => ⟨i, p, m⟩)
    scan ctx rows (i + 1) acc

/-- The number of distinct rows among violations. -/
def rowsOf (vs : List Violation) : Nat := (vs.map (·.row)).eraseDups.length

/-- Validates the records of a frame's rows, in order, in one fresh context, and answers the
violations, row after row. -/
def validateRows (schema : Nat) (records : List Value) (strict : Bool) : Run (List Violation) := do
  let ctx ← Context.create schema
  let vs ← scan ctx records 0 []
  if strict && !vs.isEmpty then
    throw (.frameViolations (← Store.schemaName schema) vs.length (rowsOf vs))
  return vs

/-- Validates every row of a frame and answers the violations, row after row. -/
def validate (schema : Nat) (columns : List Column) (strict : Bool) : Run (List Violation) := do
  match checkShape columns with
  | .ok () => pure ()
  | .error f => throw f
  let records ← match rows columns with
    | .ok rs => pure rs
    | .error f => throw f
  validateRows schema records strict

end Frame

end Schematic
