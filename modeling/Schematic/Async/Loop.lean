import Schematic.Check.Run

/-!
# The event loop

Awaitables run in tasks under an event loop that takes its queue in rounds: the handles queued
when a round begins run in order, first in first out, and those they queue wait for the next
round.

* A task's step runs its coroutine until it yields (a rule's coroutine yields once), waits for
  a gather or a task that is not finished, or finishes. Awaiting a coroutine runs it in place.
* A gather starts one task per awaitable, each queued at once; each finished task is reported
  to the gather by a queued handle; the gather is done with the list of the tasks' values once
  all are reported, or with the first fault reported, and then wakes its waiter through the
  queue.
* Running a main coroutine (`Loop.run`) stops after the round in which the main task's
  finishing is reported. Tasks still pending then are dropped without running further: nothing
  they would do later happens.
* Awaiting a coroutine alone (`Loop.await`) runs it in place: with no other task ready, a yield
  comes straight back, so only a gather needs the loop.
-/

namespace Schematic

namespace Loop

/-- Runs `m`, answering its fault as a value rather than raising it. -/
def attempt {α : Type} (m : Run α) : Run (Except Fault α) :=
  tryCatch (Except.ok <$> m) fun e => pure (.error e)

/-- Finishes a task and queues the handles waiting for it. -/
def finish (tid : Nat) (r : Except Fault Value) : Run Unit := do
  let t ← Store.task tid
  Store.setTask tid { t with frames := [], result := some r }
  for h in t.callbacks do Store.enqueue h

/-- Suspends a task with its frames until `on` is done. -/
def waitOn (tid : Nat) (frames : List Frame) (on : Awaited) : Run Unit := do
  let t ← Store.task tid
  Store.setTask tid { t with frames }
  match on with
  | .task other =>
    let o ← Store.task other
    Store.setTask other { o with callbacks := o.callbacks ++ [.wake tid on] }
  | .gather g =>
    let x ← Store.gather g
    Store.setGather g { x with callbacks := x.callbacks ++ [.wake tid on] }

/-- Starts one task per coroutine, each queued at once, and a gather over them. -/
def gatherAll (coros : List Coro) : Run Nat := do
  let g ← Store.addGather { children := [] }
  let children ← coros.mapM fun c => do
    let tid ← Store.read (·.tasks.size)
    let t ← Store.addTask { frames := [.begin c], callbacks := [.childDone g tid] }
    Store.enqueue (.step t .start)
    return t
  let x ← Store.gather g
  Store.setGather g { x with children }
  return g

/-- The pending outcomes' coroutines, in order. -/
def pendingOf {α : Type} (xs : List (α × Outcome)) : List Coro :=
  xs.filterMap fun (_, o) => match o with
    | .later c => some c
    | .now _ => none

/-- Puts settled values in place of the pending outcomes, in order. -/
def fill : List (String × Outcome) → List Value → List (String × Value)
  | [], _ => []
  | (n, .now v) :: rest, vs => (n, v) :: fill rest vs
  | (n, .later _) :: rest, v :: vs => (n, v) :: fill rest vs
  | (n, .later _) :: rest, [] => (n, .none) :: fill rest []

/-- Puts settled codes in place of a batch's pending outcomes, in order. -/
def record : List (String × Value × Outcome) → List Value → List (String × Value × Outcome)
  | [], _ => []
  | (n, x, .later _) :: rest, v :: vs => (n, x, .now v) :: record rest vs
  | o :: rest, vs => o :: record rest vs

mutual

/-- Runs a task's frames on an input until the task suspends or finishes. -/
def advance (depth : Nat) (tid : Nat) (frames : List Frame) (input : Resume) : Run Unit := do
  match depth with
  | 0 => finish tid (.error .recursionLimit)
  | depth + 1 =>
  match frames, input with
  | [], .value v => finish tid (.ok v)
  | [], .fault f => finish tid (.error f)
  | [], .start => finish tid (.ok .none)
  | _ :: rest, .fault f => advance depth tid rest (.fault f)
  | .begin c :: rest, _ => begin depth tid c rest
  | .woken inner v :: rest, _ =>
    match ← attempt (Rule.call inner v) with
    | .ok (.now x) => advance depth tid rest (.value x)
    | .ok (.later _) => advance depth tid rest (.value .coroutine)
    | .error f => advance depth tid rest (.fault f)
  | .andThen k :: rest, .value x =>
    match ← attempt (Run.resume Run.depth k x) with
    | .ok (.now y) => advance depth tid rest (.value y)
    | .ok (.later c) => advance depth tid (.begin c :: rest) .start
    | .error f => advance depth tid rest (.fault f)
  | .gathered ctx results :: rest, .value (.list codes) =>
    match ← attempt (Run.apply ctx (fill results codes)) with
    | .ok b => advance depth tid rest (.value (.bool b))
    | .error f => advance depth tid rest (.fault f)
  | .batchGathered b :: rest, .value (.list codes) =>
    let bt ← Store.batch b
    Store.setBatch b { bt with outcomes := record bt.outcomes codes, done := true }
    advance depth tid rest (.value .none)
  | .batchWaited _ :: rest, .value _ => advance depth tid rest (.value .none)
  | _ :: rest, _ => advance depth tid rest input

/-- Starts a coroutine on top of a task's remaining frames. -/
def begin (depth : Nat) (tid : Nat) (c : Coro) (rest : List Frame) : Run Unit := do
  match depth with
  | 0 => finish tid (.error .recursionLimit)
  | depth + 1 =>
  match c with
  | .rule inner v =>
    let t ← Store.task tid
    Store.setTask tid { t with frames := .woken inner v :: rest }
    Store.enqueue (.step tid .start)
  | .settled x => advance depth tid rest (.value x)
  | .chain src k => advance depth tid (.begin src :: .andThen k :: rest) .start
  | .settleContext ctx results =>
    let g ← gatherAll (pendingOf results)
    waitOn tid (.gathered ctx results :: rest) (.gather g)
  | .settleBatch b =>
    let bt ← Store.batch b
    let g ← gatherAll (pendingOf (bt.outcomes.map fun (n, _, o) => (n, o)))
    waitOn tid (.batchGathered b :: rest) (.gather g)
  | .waitBatch b =>
    let bt ← Store.batch b
    if bt.done then advance depth tid rest (.value .none)
    else
      let t ← match bt.task with
        | some t => pure t
        | none => do
          let t ← Store.addTask { frames := [.begin (.settleBatch b)] }
          Store.enqueue (.step t .start)
          Store.setBatch b { bt with task := some t }
          pure t
      match (← Store.task t).result with
      | some (.ok _) => advance depth tid rest (.value .none)
      | some (.error f) => advance depth tid rest (.fault f)
      | none => waitOn tid (.batchWaited b :: rest) (.task t)

end

/-- The result of what a task waited for. -/
def resultOf : Awaited → Run (Option (Except Fault Value))
  | .task t => do return (← Store.task t).result
  | .gather g => do return (← Store.gather g).result

/-- Runs one step of a task that has not finished. -/
def stepTask (tid : Nat) (input : Resume) : Run Unit := do
  let t ← Store.task tid
  if t.result.isSome then return
  advance Run.depth tid t.frames input

/-- Reports a finished child to its gather. -/
def childDone (g : Nat) (child : Nat) : Run Unit := do
  let x ← Store.gather g
  let x := { x with finished := x.finished + 1 }
  if x.result.isSome then
    Store.setGather g x
    return
  match (← Store.task child).result with
  | some (.error f) =>
    Store.setGather g { x with result := some (.error f) }
    for h in x.callbacks do Store.enqueue h
  | _ =>
    if x.finished == x.children.length then
      let values ← x.children.mapM fun c => do
        match (← Store.task c).result with
        | some (.ok v) => pure v
        | _ => pure .none
      Store.setGather g { x with result := some (.ok (.list values)) }
      for h in x.callbacks do Store.enqueue h
    else Store.setGather g x

/-- Runs one handle; answers whether it stops the loop. -/
def handle : Handle → Run Bool
  | .step tid input => do
    stepTask tid input
    return false
  | .wake tid on => do
    match ← resultOf on with
    | some (.ok v) => stepTask tid (.value v)
    | some (.error f) => stepTask tid (.fault f)
    | none => pure ()
    return false
  | .childDone g child => do
    childDone g child
    return false
  | .stop => return true

/-- Runs rounds of the queue until a round stops the loop, the queue is empty, or `fuel`
rounds have run. -/
def rounds : Nat → Run Unit
  | 0 => return
  | fuel + 1 => do
    let s ← get
    let batch := s.ready
    set { s with ready := [] }
    let stopped ← batch.foldlM (fun stopped h => do
      let stops ← handle h
      return stopped || stops) false
    if stopped || (← get).ready.isEmpty then return
    rounds fuel

/-- The most rounds one run of the loop takes. -/
def maxRounds : Nat := 1000000

/-- Runs a coroutine as the main task of a fresh loop and answers its value, or raises its
fault. -/
def run (c : Coro) : Run Value := do
  modify fun s => { s with ready := [] }
  let main ← Store.addTask { frames := [.begin c], callbacks := [.stop] }
  Store.enqueue (.step main .start)
  rounds maxRounds
  modify fun s => { s with ready := [] }
  match (← Store.task main).result with
  | some (.ok v) => return v
  | some (.error f) => throw f
  | none => throw .recursionLimit

/-- Awaits a coroutine from a task that has nothing else to wait for, as the host does with a
validator's awaitable: a chain awaits its source in place and then goes on with its step, a
rule's coroutine yields once to a loop with nothing else ready and then answers, and a settled
coroutine answers at once; only gathering tasks needs the loop (`run`). Each coroutine awaited
spends one unit of `fuel`. -/
def await : Nat → Coro → Run Value
  | 0, _ => throw .recursionLimit
  | _ + 1, .settled x => return x
  | _ + 1, .rule inner v => do
    match ← Rule.call inner v with
    | .now x => return x
    | .later _ => return .coroutine
  | fuel + 1, .chain src k => do
    let x ← await fuel src
    match ← Run.resume Run.depth k x with
    | .now y => return y
    | .later c => await fuel c
  | _ + 1, .settleContext ctx results => run (.settleContext ctx results)
  | _ + 1, .settleBatch b => run (.settleBatch b)
  | _ + 1, .waitBatch b => run (.waitBatch b)

/-- Awaits an outcome: a value now is itself; an awaitable is awaited. -/
def settle : Outcome → Run Value
  | .now v => return v
  | .later c => await Run.depth c

end Loop

end Schematic
