import Schematic.Async.Loop

/-!
# Batch results

Validating a record against a schema without a context gives a *batch result*: a record
holding a key that is not a field is rejected at once, each such key listed as
`keyNotInSchema` with its value and no validator run; otherwise every field validator runs in
field order on the value under its name, and the result keeps each field's value (none when
absent) and outcome.

The result is done when no outcome is pending; waiting settles the pending ones together, once:
a second wait finds the same outcomes, or the same fault.

Its errors are the fields whose code is text, in field order, with their values.
-/

namespace Schematic

namespace Batch

/-- One field that failed: its name, its code and its value. -/
structure FieldError where
  field : String
  message : String
  value : Value

/-- Validates a record (none read as an empty mapping) against a schema. -/
def create (schema : Nat) (data : Value) : Run Nat := do
  let es ← match data with
    | .none => pure []
    | .dict es => pure es
    | _ => throw (.notMapping (← Store.schemaName schema) data.typeName)
  let s ← Store.schema schema
  let names := s.fields.map (·.1)
  let unknown := es.filter fun (k, _) => !Run.namesField names k
  if !unknown.isEmpty then
    let outcomes ← unknown.mapM fun (k, v) => do
      return (← Store.plain k, v, Outcome.now (.str "keyNotInSchema"))
    return ← Store.addBatch { outcomes, rejected := true, done := true }
  let outcomes ← s.fields.mapM fun (name, f) => do
    let v := (Value.lookup (.str name) es).getD .missing
    let o ← Run.validator Run.depth f.validator v none
    return (name, (if v matches .missing then .none else v), o)
  let done := !outcomes.any fun (_, _, o) => Run.Outcome.isLater o
  Store.addBatch { outcomes, rejected := false, done }

/-- The errors settled so far, in field order. -/
def errors (b : Batch) : List FieldError :=
  b.outcomes.filterMap fun (name, v, o) => match o with
    | .now code => (Run.codeText code).map fun m => ⟨name, m, v⟩
    | .later _ => none

/-- Valid once done and without errors. -/
def valid (b : Batch) : Bool := b.done && (errors b).isEmpty

/-- Waits for a batch result and answers its errors. -/
def wait (id : Nat) : Run (List FieldError) := do
  let _ ← Loop.run (.waitBatch id)
  return errors (← Store.batch id)

end Batch

end Schematic
