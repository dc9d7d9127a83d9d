import Schematic.Fault
import Schematic.Value.Basic

/-!
# Outcomes, awaitables and tasks

A validator answers at once or hands back an *awaitable*: a coroutine that has not started.
Coroutines are data here: each names what its body does (`Coro`), and a continuation that runs
after an awaited value arrives is a `Step`, interpreted by the check runner. Awaiting a
coroutine runs it in the awaiting task until it yields; a rule's coroutine yields once before
computing its answer, and waiting for a group of tasks (a *gather*) suspends the task until the
group is complete.

Tasks and gathers live in the store. The event loop runs *handles* from a queue, first in first
out: the step of a task, the report of a finished task to its gather, and the stop of the loop.
-/

namespace Schematic

/-- A continuation: what runs when an awaited value arrives. -/
inductive Step where
  /-- Reads a rule's result as a code. -/
  | interpret
  /-- Keeps a code, or else applies the custom rule to the value. -/
  | orRule (rule : Value) (v : Value)
  /-- Goes on trying union candidates from `next`, carrying the first specific error. -/
  | attempts (candidates : List (Option Bool × Nat)) (v : Value) (path : String) (next : Nat)
      (error : Value)
  /-- Goes on checking array elements from `next`, carrying the worst code so far. -/
  | elements (check : Nat) (items : List Value) (ctx : Option Nat) (path : String) (next : Nat)
      (failed : Value)
  /-- Ends a nested-schema check: frees its context and copies messages up. -/
  | release (check : Nat) (reentrant : Bool) (ctx : Option Nat) (path : String) (nested : Nat)
  deriving Inhabited

mutual

/-- An answer: a value now, or an awaitable that will produce one. -/
inductive Outcome where
  | now (v : Value)
  | later (c : Coro)

/-- A coroutine not yet started. -/
inductive Coro where
  /-- A rule's coroutine: it yields once, then returns the rule's result. -/
  | rule (inner : Rule) (v : Value)
  /-- Returns a value without yielding. -/
  | settled (v : Value)
  /-- Awaits `source`, then continues with `k`, awaiting what `k` hands back. -/
  | chain (source : Coro) (k : Step)
  /-- Gathers a context's pending field results, then writes every field's code. -/
  | settleContext (ctx : Nat) (results : List (String × Outcome))
  /-- Gathers a batch result's pending codes and records them. -/
  | settleBatch (batch : Nat)
  /-- Waits for a batch result, starting its settling task on first use. -/
  | waitBatch (batch : Nat)

end

instance : Inhabited Outcome := ⟨.now .none⟩

/-- An unstarted coroutine or a point at which a running one is suspended. -/
inductive Frame where
  | begin (c : Coro)
  | woken (inner : Rule) (v : Value)
  | andThen (k : Step)
  | gathered (ctx : Nat) (results : List (String × Outcome))
  | batchGathered (batch : Nat)
  | batchWaited (batch : Nat)

/-- What a suspended task is resumed with. -/
inductive Resume where
  | start
  | value (v : Value)
  | fault (f : Fault)

/-- Something a task can wait for. -/
inductive Awaited where
  | task (id : Nat)
  | gather (id : Nat)
  deriving DecidableEq

/-- An entry of the loop's queue. -/
inductive Handle where
  /-- Runs a task until it next suspends. -/
  | step (task : Nat) (input : Resume)
  /-- Resumes a task with the result of what it waited for. -/
  | wake (task : Nat) (on : Awaited)
  /-- Reports a finished child task to its gather. -/
  | childDone (gather : Nat) (child : Nat)
  /-- Stops the loop after the current round. -/
  | stop

/-- A task: its stack of frames, top first, its result once finished, and the handles to
queue when it finishes. -/
structure Task where
  frames : List Frame
  result : Option (Except Fault Value) := none
  callbacks : List Handle := []

/-- A group of tasks awaited together: done with the list of their values once all have
finished, or with the first fault reported. -/
structure Gather where
  children : List Nat
  finished : Nat := 0
  result : Option (Except Fault Value) := none
  callbacks : List Handle := []

end Schematic
