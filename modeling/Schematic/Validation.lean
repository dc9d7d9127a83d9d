import Schematic.Async.Loop

/-!
# Validating records

The entry points that validate data:

* `Validation.validate` runs a context synchronously (`Run.validate`);
* `Validation.validateAsync` runs it and awaits every pending field, all started before any is
  awaited, then writes every field's code;
* `Validation.field` runs one field's validator, awaiting its answer when it is pending;
* `Validation.isMember` asks whether a value belongs to a tag: a union when some candidate's
  tag holds it, an array when it is a list or tuple of members, a schema when it is a mapping
  that validates in a fresh context, a lazy tag when its target holds it.
-/

namespace Schematic

namespace Validation

/-- A synchronous run of a context. -/
def validate (ctx : Nat) (data : Value) : Run Bool := Run.validate ctx data

/-- A run of a context that awaits its pending fields. -/
def validateAsync (ctx : Nat) (data : Value) : Run Bool := do
  let v ← Loop.settle (← Run.context Run.depth ctx data)
  return v.truthy

/-- One field validator's answer on a value, with or without a context; `pending` tells
whether it had to be awaited. -/
def field (val : Validator) (v : Value) (ctx : Option Nat) : Run (Bool × Value) := do
  match ← Run.validator Run.depth val v ctx with
  | .now code => return (false, code)
  | .later c => return (true, ← Loop.await Run.depth c)

/-- Whether a value belongs to a tag. -/
def isMember : Nat → Tag → Value → Run Bool
  | 0, _, _ => throw .recursionLimit
  | depth + 1, tag, v => do
    match tag with
    | .primitive p => return p.test v
    | .any => return true
    | .anyOf id =>
      let u ← Store.union id
      u.candidates.anyM fun c => isMember depth c.type v
    | .arrayOf id =>
      let a ← Store.array id
      match v.items? with
      | none => return false
      | some xs => xs.allM fun x => isMember depth a.element x
    | .schema sid =>
      if !v.isMapping then return false
      let ctx ← Context.create sid
      validate ctx v
    | .lazy lid => isMember depth (← Run.resolveLazy lid) v

end Validation

end Schematic
