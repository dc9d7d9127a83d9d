import Schematic.Spec

/-!
# Compiled checks

A field's declaration compiles into a tree of *checks*, each stored in the store under a handle,
because some carry state that outlives one validation:

* a nested-schema check owns a validation context, reused from run to run, and a *busy* flag
  that is set while a run is using that context, so that a run arriving meanwhile (a schema
  that nests itself, or two pending runs) takes a fresh context instead;
* a lazy check builds the check of its target the first time it runs, and keeps it.

The other checks are fixed once built: membership of a primitive, a primitive with bounds,
the wildcard, a union of candidate checks, an array of an element check, and a check followed
by a custom rule.
-/

namespace Schematic

/-- One compiled check. Handles name other checks, contexts, schemas and lazy tags in the
store. -/
inductive Check where
  /-- The value belongs to the primitive, or fails with `invalidType`. -/
  | member (p : Primitive)
  /-- Membership, then the measure against `min` and `max` (`none` when unset). -/
  | bounded (p : Primitive) (min max : Value)
  /-- Accepts everything. -/
  | pass
  /-- Tries the candidates in order; each carries its own `nullable`. -/
  | union (candidates : List (Option Bool × Nat))
  /-- A list or tuple within the length bounds whose every element passes `element`. -/
  | array (element : Nat) (min max : Option Int)
  /-- A mapping that validates in the schema's context. -/
  | nested (schema : Nat) (owned : Nat) (busy : Bool)
  /-- Resolves the lazy tag and runs its target's check, built once for this field. -/
  | lazy (tag : Nat) (field : Option String) (spec : Spec) (owner : Option Nat)
      (built : Option Nat)
  /-- Runs `inner`, then, when it reports nothing, the custom rule. -/
  | custom (inner : Nat) (rule : Value)
  deriving Inhabited

/-- The compiled validator of a field: its check and the decisions taken before it. -/
structure Validator where
  field : Option String
  check : Nat
  required : Bool
  nullable : Option Bool
  /-- `none` reaches the check: `nullable` is unset and the tag checks none itself. -/
  offersNone : Bool
  /-- The custom rule is a coroutine function, so every answer is an awaitable. -/
  alwaysPending : Bool
  deriving Inhabited

end Schematic
