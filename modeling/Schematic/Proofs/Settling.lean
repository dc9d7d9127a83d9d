import Mathlib
import Schematic.Proofs.Batches

/-!
# Waiting for a batch result

Waiting for a batch result runs the event loop with a main task that starts one settling task;
the settling task gathers the batch's pending coroutines, one child task each, and writes the
values the gather hands back into the batch by position. Between the gather's start and its end
the children run in whatever order the loop's rounds give them, and each may start tasks and
gathers of its own.

The argument is an invariant of the loop (`Waiting`): the main task waits for the settling task,
which waits for the gather, and every other task the loop can run holds only coroutines of the
kind the check runner makes (`Coro.Plain`), which never settle or wait for a batch. So the batch
is written once, by the settling task, with as many values as it had pending coroutines, whatever
order they settled in.

* `Run.plain`: every answer of the check runner is plain;
* `Waiting.handle`: one handle of the loop keeps the invariant; `Waiting.rounds` follows;
* `Started.first`, `Started.second`: the first two rounds start the settling task and the
  gather, after which the loop is waiting; while the gather's children are started, `Spawning`
  holds;
* **`Loop.run_waitBatch`**: waiting for a batch that has not settled, when the loop answers, has
  written every pending outcome's value in its place and marked the batch done;
* **`Loop.run_waitBatch_done`**: waiting for a batch that has settled answers at once, and the
  store keeps of the run only the main task, finished;
* `Batch.wait_settles` and `Batch.wait_done` read both off for `Batch.wait`, which answers the
  batch's errors.
-/

namespace Schematic

/-! ### The coroutines the runner makes -/

/-- A coroutine of the kind the check runner makes: a rule's coroutine, a settled value, a chain,
or the settling of a context's pending fields, each of whose awaitables is of the same kind.
Settling or waiting for a batch result is not among them: only waiting for a batch starts
those. -/
inductive Coro.Plain : Coro → Prop
  | rule (inner : Rule) (v : Value) : Coro.Plain (.rule inner v)
  | settled (x : Value) : Coro.Plain (.settled x)
  | chain {c : Coro} (k : Step) : Coro.Plain c → Coro.Plain (.chain c k)
  | settleContext (ctx : Nat) {results : List (String × Outcome)} :
      (∀ c ∈ Loop.pendingOf results, Coro.Plain c) → Coro.Plain (.settleContext ctx results)

/-- An answer whose awaitable, if it has one, is of the kind the runner makes. -/
def Outcome.Plain (o : Outcome) : Prop := ∀ c, o = .later c → c.Plain

namespace Outcome.Plain

theorem now (v : Value) : (Outcome.now v).Plain := fun _ h => by cases h

theorem later {c : Coro} (hc : c.Plain) : (Outcome.later c).Plain := fun _ h => by
  cases h
  exact hc

end Outcome.Plain

theorem Loop.mem_pendingOf {α : Type} {xs : List (α × Outcome)} {c : Coro} :
    c ∈ Loop.pendingOf xs ↔ ∃ a, (a, Outcome.later c) ∈ xs := by
  unfold Loop.pendingOf
  simp only [List.mem_filterMap]
  constructor
  · rintro ⟨⟨a, o⟩, hmem, ho⟩
    cases o with
    | now v => cases ho
    | later c' =>
      cases ho
      exact ⟨a, hmem⟩
  · rintro ⟨a, hmem⟩
    exact ⟨(a, .later c), hmem, rfl⟩

/-- The pending coroutines of plain answers are plain. -/
theorem Loop.pendingOf_plain {α : Type} {xs : List (α × Outcome)} (h : ∀ x ∈ xs, x.2.Plain) :
    ∀ c ∈ Loop.pendingOf xs, c.Plain := by
  intro c hc
  obtain ⟨a, ha⟩ := Loop.mem_pendingOf.mp hc
  exact h _ ha c rfl

namespace Yields

variable {α β : Type} {s : Store} {Q : β → Store → Prop}

/-- Two postconditions of one computation hold together. -/
theorem and {m : Run α} {P Q : α → Store → Prop} (hp : Yields m s P) (hq : Yields m s Q) :
    Yields m s fun a t => P a t ∧ Q a t :=
  fun a t ht => ⟨hp a t ht, hq a t ht⟩

/-- A block whose rest answers as `Q` from every answer and store of its first step. -/
theorem bind_all {x : Run α} {f : α → Run β} (h : ∀ a t, Yields (f a) t Q) :
    Yields (x >>= f) s Q :=
  bind fun a t _ => h a t

/-- A loop over a list whose every step keeps `P` keeps it, and answers one value per element. -/
theorem mapM_inv {γ : Type} {f : γ → Run α} (P : Store → Prop) {xs : List γ}
    (hf : ∀ x ∈ xs, ∀ s, P s → Yields (f x) s fun _ t => P t) :
    ∀ s, P s → Yields (xs.mapM f) s fun ys t => P t ∧ ys.length = xs.length := by
  induction xs with
  | nil => exact fun s hs => pure ⟨hs, rfl⟩
  | cons x xs ih =>
    intro s hs
    rw [List.mapM_cons]
    refine bind ((hf x List.mem_cons_self s hs).mono fun _ t ht => ?_)
    exact bind ((ih (fun y hy => hf y (List.mem_cons_of_mem x hy)) t ht).mono
      fun _ u hu => pure ⟨hu.1, by simp [hu.2]⟩)

/-- A fold over a list whose every step keeps `P` keeps it. -/
theorem foldlM_inv {γ : Type} {f : α → γ → Run α} (P : Store → Prop) {xs : List γ}
    (hf : ∀ a, ∀ x ∈ xs, ∀ s, P s → Yields (f a x) s fun _ t => P t) :
    ∀ a s, P s → Yields (xs.foldlM f a) s fun _ t => P t := by
  induction xs with
  | nil => exact fun a s hs => pure hs
  | cons x xs ih =>
    intro a s hs
    rw [List.foldlM_cons]
    exact bind ((hf a x List.mem_cons_self s hs).mono fun b t ht =>
      ih (fun a' y hy => hf a' y (List.mem_cons_of_mem x hy)) b t ht)

/-- A `for` loop over a list whose every step keeps `P` keeps it. -/
theorem forIn_inv {γ : Type} {f : γ → α → Run (ForInStep α)} (P : Store → Prop) {xs : List γ}
    (hf : ∀ x ∈ xs, ∀ a s, P s → Yields (f x a) s fun _ t => P t) :
    ∀ a s, P s → Yields (forIn xs a f) s fun _ t => P t := by
  induction xs with
  | nil => exact fun a s hs => pure hs
  | cons x xs ih =>
    intro a s hs
    rw [List.forIn_cons]
    refine bind ((hf x List.mem_cons_self a s hs).mono fun r t ht => ?_)
    cases r with
    | done a' => exact pure ht
    | yield a' => exact ih (fun y hy => hf y (List.mem_cons_of_mem x hy)) a' t ht

/-- A loop over a list of reads answers a list as long, and leaves the store alone. -/
theorem mapM_reads {γ : Type} {f : γ → Run α} (hf : ∀ x s, Yields (f x) s fun _ t => t = s) :
    ∀ (xs : List γ) s, Yields (xs.mapM f) s fun ys t => ys.length = xs.length ∧ t = s
  | [], _ => pure ⟨rfl, rfl⟩
  | x :: xs, s => by
    rw [List.mapM_cons]
    refine bind ((hf x s).mono fun y t ht => ?_)
    subst ht
    exact bind ((mapM_reads hf xs t).mono fun ys u hu => pure ⟨by simp [hu.1], hu.2⟩)

end Yields

namespace Run

/-- A rule called on a value answers now, or with its own coroutine. -/
theorem call_plain (r : Rule) (v : Value) (s : Store) :
    Yields (Rule.call r v) s fun o _ => o.Plain := by
  cases r with
  | raises m => exact Yields.bind_all fun _ _ => Yields.throw _
  | coroutine inner => exact Yields.pure (.later (.rule inner v))
  | awaitable inner => exact Yields.pure (.later (.rule inner v))
  | minLength n o =>
    exact Yields.bind_all fun _ _ => Yields.bind_all fun _ _ => Yields.pure (.now _)
  | const x => exact Yields.pure (.now _)
  | equals t o => exact Yields.pure (.now _)
  | member vs o => exact Yields.bind_all fun _ _ => Yields.pure (.now _)
  | greaterThan n o => exact Yields.bind_all fun _ _ => Yields.pure (.now _)
  | startsWith h o => exact Yields.bind_all fun _ _ => Yields.pure (.now _)

theorem callValue_plain (f v : Value) (s : Store) :
    Yields (Rule.callValue f v) s fun o _ => o.Plain := by
  unfold Rule.callValue
  split
  · exact call_plain _ v s
  all_goals first
    | exact Yields.pure (.now _)
    | exact Yields.bind_all fun _ _ => Yields.pure (.now _)
    | exact Yields.bind_all fun _ _ => Yields.bind_all fun _ _ => Yields.pure (.now _)

theorem applyRule_plain (rule v : Value) (s : Store) :
    Yields (applyRule rule v) s fun o _ => o.Plain := by
  unfold applyRule
  refine Yields.bind ((callValue_plain rule v s).mono fun o t ho => ?_)
  cases o with
  | now x => exact Yields.pure (.now _)
  | later c => exact Yields.pure (.later (.chain .interpret (ho c rfl)))

/-- Ending a nested-schema check answers now. -/
theorem release_plain (node : Nat) (reentrant : Bool) (ctx : Option Nat) (path : String)
    (nested : Nat) (valid : Value) (s : Store) :
    Yields (release node reentrant ctx path nested valid) s fun o _ => o.Plain := by
  unfold release
  refine Yields.bind_all fun _ t => ?_
  split
  · exact Yields.pure (.now _)
  · rcases ctx with _ | c
    · exact Yields.pure (.now _)
    · dsimp only
      split
      · exact Yields.bind_all fun _ _ => Yields.bind_all fun _ _ => Yields.pure (.now _)
      · exact Yields.pure (.now _)

/-- Trying union candidates answers plainly when each candidate's check does. -/
theorem attempts_yields_plain {run : Nat → Run Outcome}
    (hrun : ∀ node (s : Store), Yields (run node) s fun o _ => o.Plain)
    (all : List (Option Bool × Nat)) (v : Value) (path : String) (rest : List (Option Bool × Nat)) :
    ∀ (i : Nat) (error : Value) (s : Store),
      Yields (Run.attempts run all v path i rest error) s fun o _ => o.Plain := by
  induction rest with
  | nil =>
    intro i error s
    rw [Run.attempts.eq_1]
    exact Yields.pure (.now _)
  | cons candidate more ih =>
    obtain ⟨nullable, node⟩ := candidate
    intro i error s
    rw [Run.attempts.eq_def]
    dsimp only
    -- the candidate's answer is plain, whether or not the value is none
    split
    on_goal 1 => refine Yields.bind ((Yields.pure (Q := fun (o : Outcome) _ => o.Plain) (.now _)).mono
      fun o t ho => ?_)
    on_goal 2 => refine Yields.bind ((hrun node s).mono fun o t ho => ?_)
    all_goals
      cases o with
      | later c => exact Yields.pure (.later (.chain _ (ho c rfl)))
      | now code =>
        dsimp only
        split
        · exact Yields.pure (.now _)
        · exact ih _ _ t

/-- Checking array elements answers plainly when the element check does. -/
theorem elements_yields_plain {run : Value → String → Run Outcome}
    (hrun : ∀ x q (s : Store), Yields (run x q) s fun o _ => o.Plain) (element : Nat)
    (items : List Value) (ctx : Option Nat) (path : String) (rest : List Value) :
    ∀ (i : Nat) (failed : Value) (s : Store),
      Yields (Run.elements run element items ctx path i rest failed) s fun o _ => o.Plain := by
  induction rest with
  | nil =>
    intro i failed s
    rw [Run.elements.eq_1]
    exact Yields.pure (.now _)
  | cons x more ih =>
    intro i failed s
    rw [Run.elements.eq_2]
    refine Yields.bind ((hrun x _ s).mono fun o t ho => ?_)
    cases o with
    | later c => exact Yields.pure (.later (.chain _ (ho c rfl)))
    | now code => exact ih _ _ t

/-- Running a schema's fields answers plainly when each validator does. -/
theorem fields_yields_plain {run : Validator → Value → Run Outcome}
    (hrun : ∀ val x (s : Store), Yields (run val x) s fun o _ => o.Plain)
    (es : List (Value × Value)) (fs : List (String × Field)) :
    ∀ s : Store, Yields (Run.fields run es fs) s fun rs _ => ∀ x ∈ rs, x.2.Plain := by
  induction fs with
  | nil =>
    intro s
    rw [Run.fields.eq_1]
    exact Yields.pure fun _ h => absurd h List.not_mem_nil
  | cons f rest ih =>
    intro s
    rw [Run.fields.eq_2]
    refine Yields.bind ((hrun _ _ s).mono fun o t ho => ?_)
    refine Yields.bind ((ih t).mono fun rs u hrs => Yields.pure ?_)
    intro x hx
    rcases List.mem_cons.mp hx with rfl | hx
    · exact ho
    · exact hrs x hx

/-- At depth `d`, every answer of the check runner is plain. -/
structure RunPlain (d : Nat) : Prop where
  check : ∀ node v ctx path (s : Store), Yields (Run.check d node v ctx path) s fun o _ => o.Plain
  context : ∀ ctx data (s : Store), Yields (Run.context d ctx data) s fun o _ => o.Plain
  start : ∀ ctx data (s : Store),
    Yields (Run.start d ctx data) s fun rs _ => ∀ x ∈ rs, x.2.Plain
  validator : ∀ val v ctx (s : Store), Yields (Run.validator d val v ctx) s fun o _ => o.Plain

namespace RunPlain

variable {d : Nat}

theorem zero : RunPlain 0 where
  check _ _ _ _ _ := by rw [Run.check]; exact Yields.throw _
  context _ _ _ := by rw [Run.context]; exact Yields.throw _
  start _ _ _ := by rw [Run.start]; exact Yields.throw _
  validator _ _ _ _ := by rw [Run.validator]; exact Yields.throw _

theorem check_succ (ih : RunPlain d) (node : Nat) (v : Value) (ctx : Option Nat) (path : String)
    (s : Store) : Yields (Run.check (d + 1) node v ctx path) s fun o _ => o.Plain := by
  rw [Run.check.eq_2]
  refine Yields.bind_all fun c t => ?_
  cases c with
  | member p => exact Yields.pure (.now _)
  | bounded p lo hi => exact Yields.bind_all fun _ _ => Yields.pure (.now _)
  | pass => exact Yields.pure (.now _)
  | union cs => exact attempts_yields_plain (fun node u => ih.check node v none path u) cs v path cs 0 .none t
  | array e lo hi =>
    dsimp only
    split
    · exact Yields.pure (.now _)
    · split_ifs
      · exact Yields.pure (.now _)
      · exact Yields.pure (.now _)
      · exact elements_yields_plain (fun x q u => ih.check e x ctx q u) _ _ _ _ _ _ _ t
  | nested sid owned busy =>
    dsimp only
    -- the two ways of taking a context share the rest of the block
    split
    all_goals
      refine Yields.bind_all fun inner t₁ => Yields.bind_all fun _ t₂ => ?_
      -- the nested run's answer, caught: nothing for a value that is not a mapping
      refine Yields.bind (Yields.mono (P := fun a _ => ∀ o, a = some o → o.Plain)
        (Yields.tryCatch (Yields.map ((ih.context inner v t₂).mono fun o _ ho o' h => ?_))
          fun e u _ => Yields.bind_all fun _ _ => ?_) fun answer u ha => ?_)
      · cases h
        exact ho
      · split
        · exact Yields.throw _
        · exact Yields.pure fun _ h => by cases h
        · exact Yields.throw _
      rcases answer with _ | (valid | k)
      · exact Yields.pure (.now _)
      · exact release_plain _ _ _ _ _ _ u
      · -- a pending nested run is released once it has settled
        have hk : k.Plain := ha _ rfl k rfl
        rcases ctx with _ | c₀
        · exact Yields.pure (.later (.chain _ hk))
        · exact Yields.bind_all fun _ _ => Yields.bind_all fun _ _ =>
            Yields.pure (.later (.chain _ hk))
  | lazy lid field spec owner built =>
    cases built with
    | some n => exact Yields.bind_all fun target u => ih.check target v ctx path u
    | none =>
      exact Yields.bind_all fun _ _ => Yields.bind_all fun _ _ => Yields.bind_all fun _ _ =>
        Yields.bind_all fun target u => ih.check target v ctx path u
  | custom inner rule =>
    dsimp only
    refine Yields.bind ((ih.check inner v ctx path t).mono fun o u ho => ?_)
    cases o with
    | now code =>
      dsimp only
      split
      · exact Yields.pure (.now _)
      · exact applyRule_plain rule v u
    | later c => exact Yields.pure (.later (.chain _ (ho c rfl)))

theorem context_succ (ih : RunPlain d) (ctx : Nat) (data : Value) (s : Store) :
    Yields (Run.context (d + 1) ctx data) s fun o _ => o.Plain := by
  rw [Run.context.eq_def]
  dsimp only
  refine Yields.bind ((ih.start ctx data s).mono fun results t hr => ?_)
  split
  · exact Yields.pure (.later (.settleContext ctx (Loop.pendingOf_plain hr)))
  · exact Yields.bind_all fun _ _ => Yields.pure (.now _)

theorem start_succ (ih : RunPlain d) (ctx : Nat) (data : Value) (s : Store) :
    Yields (Run.start (d + 1) ctx data) s fun rs _ => ∀ x ∈ rs, x.2.Plain := by
  rw [Run.start.eq_def]
  dsimp only
  refine Yields.bind_all fun c t => ?_
  split
  · exact Yields.bind_all fun es _ => Yields.bind_all fun sch _ => Yields.bind_all fun _ _ =>
      Yields.bind_all fun _ u => fields_yields_plain (fun val x w => ih.validator val x (some ctx) w) es _ u
  · exact Yields.bind_all fun _ _ => Yields.bind (Yields.throw _)

theorem validator_succ (ih : RunPlain d) (val : Validator) (v : Value) (ctx : Option Nat)
    (s : Store) : Yields (Run.validator (d + 1) val v ctx) s fun o _ => o.Plain := by
  rw [Run.validator.eq_def]
  dsimp only
  -- the answer before the final step is plain on every path
  split
  on_goal 2 => split
  on_goal 1 => refine Yields.bind ((Yields.pure (Q := fun (o : Outcome) _ => o.Plain) (.now _)).mono
    fun o t ho => ?_)
  on_goal 2 => refine Yields.bind ((ih.check _ _ _ _ s).mono fun o t ho => ?_)
  on_goal 3 => refine Yields.bind ((Yields.pure (Q := fun (o : Outcome) _ => o.Plain) (.now _)).mono
    fun o t ho => ?_)
  on_goal 4 => refine Yields.bind ((ih.check _ _ _ _ s).mono fun o t ho => ?_)
  all_goals
    split
    · split
      · exact Yields.pure (.later (.settled _))
      · exact Yields.pure (.now _)
    · exact Yields.pure ho

theorem succ (ih : RunPlain d) : RunPlain (d + 1) where
  check := check_succ ih
  context := context_succ ih
  start := start_succ ih
  validator := validator_succ ih

end RunPlain

/-- **Every answer of the check runner, at any depth, is plain.** -/
theorem plain : ∀ d, RunPlain d
  | 0 => .zero
  | d + 1 => (plain d).succ

/-- Finishing the work a pending answer left answers plainly. -/
theorem resume_plain (d : Nat) (k : Step) (x : Value) (s : Store) :
    Yields (resume d k x) s fun o _ => o.Plain := by
  cases k with
  | interpret => exact Yields.pure (.now _)
  | orRule rule v =>
    simp only [resume]
    split
    · exact Yields.pure (.now _)
    · exact applyRule_plain rule v s
  | attempts all v path i error =>
    simp only [resume]
    split
    · exact Yields.pure (.now _)
    · exact attempts_yields_plain (fun node u => (plain d).check node v none path u) _ _ _ _ _ _ s
  | elements element items ctx path i failed =>
    exact elements_yields_plain (fun x q u => (plain d).check element x ctx q u) _ _ _ _ _ _ _ s
  | release node reentrant ctx path nested => exact release_plain _ _ _ _ _ _ s

end Run

/-! ### What the runner leaves of the loop -/

section Work

variable (p : Store.Patch)

instance Run.resume_commutes [p.SetsNoContext] (d : Nat) (k : Step) (x : Value) :
    Commutes p (Run.resume d k x) := by
  have := (Run.commutes p d).check
  cases k <;> simp only [Run.resume] <;> infer_instance

instance Loop.attempt_commutes {α : Type} (m : Run α) [Commutes p m] :
    Commutes p (Loop.attempt m) := by
  unfold Loop.attempt
  infer_instance

end Work

/-! ### The invariant of a loop waiting for a batch -/

namespace Store

/-- Past the last handle, the default. -/
theorem at!_of_size_le {α : Type} [Inhabited α] {xs : Array α} {j : Nat} (h : xs.size ≤ j) :
    at! xs j = default := by
  simp [at!, Array.getElem?_eq_none h]

@[simp] theorem run_task (id : Nat) (s : Store) :
    (task id).run.run s = (.ok (at! s.tasks id), s) := rfl

@[simp] theorem run_gather (id : Nat) (s : Store) :
    (gather id).run.run s = (.ok (at! s.gathers id), s) := rfl

@[simp] theorem run_batch (id : Nat) (s : Store) :
    (batch id).run.run s = (.ok (at! s.batches id), s) := rfl

@[simp] theorem run_setTask (id : Nat) (x : Task) (s : Store) :
    (setTask id x).run.run s = (.ok (), { s with tasks := s.tasks.setIfInBounds id x }) := rfl

@[simp] theorem run_setGather (id : Nat) (x : Gather) (s : Store) :
    (setGather id x).run.run s = (.ok (), { s with gathers := s.gathers.setIfInBounds id x }) :=
  rfl

@[simp] theorem run_setBatch (id : Nat) (x : Batch) (s : Store) :
    (setBatch id x).run.run s = (.ok (), { s with batches := s.batches.setIfInBounds id x }) :=
  rfl

@[simp] theorem run_addTask (x : Task) (s : Store) :
    (addTask x).run.run s = (.ok s.tasks.size, { s with tasks := s.tasks.push x }) := rfl

@[simp] theorem run_addGather (x : Gather) (s : Store) :
    (addGather x).run.run s = (.ok s.gathers.size, { s with gathers := s.gathers.push x }) := rfl

@[simp] theorem run_enqueue (h : Handle) (s : Store) :
    (enqueue h).run.run s = (.ok (), { s with ready := s.ready ++ [h] }) := rfl

end Store

/-- A frame of a task running the runner's coroutines: it never records a batch result. -/
def Frame.Plain : Frame → Prop
  | .begin c => c.Plain
  | .batchGathered _ => False
  | _ => True

/-- The pending coroutines of a batch result, in field order. -/
def Batch.pending (bt : Batch) : List Coro := Loop.pendingOf (bt.outcomes.map fun x => (x.1, x.2.2))

namespace Loop

@[simp] theorem run_resultOf_task (t : Nat) (s : Store) :
    (resultOf (.task t)).run.run s = (.ok (Store.at! s.tasks t).result, s) := rfl

@[simp] theorem run_resultOf_gather (g : Nat) (s : Store) :
    (resultOf (.gather g)).run.run s = (.ok (Store.at! s.gathers g).result, s) := rfl

/-- Starting a gather over coroutines: a fresh gather, then one fresh task per coroutine, queued
at once and reporting to the gather, then the gather's children. `P` is what each of these
steps keeps. -/
theorem gatherAll_yields {s : Store} {coros : List Coro} (P : Store → Prop) (Q : Nat → Store → Prop)
    (h0 : P { s with gathers := s.gathers.push { children := [] } })
    (hstep : ∀ c ∈ coros, ∀ u, P u → P { u with
      tasks := u.tasks.push { frames := [.begin c], callbacks := [.childDone s.gathers.size u.tasks.size] }
      ready := u.ready ++ [.step u.tasks.size .start] })
    (hend : ∀ u (cs : List Nat), P u → cs.length = coros.length → Q s.gathers.size { u with
      gathers := u.gathers.setIfInBounds s.gathers.size
        { Store.at! u.gathers s.gathers.size with children := cs } }) :
    Yields (gatherAll coros) s Q := by
  unfold gatherAll
  refine Yields.bind (Yields.of_eq (Store.run_addGather _ _) fun g' hg' => ?_)
  cases hg'
  refine Yields.bind ((Yields.mapM_inv P (fun c hmem u hu => ?_) _ h0).mono
    fun cs t ht => ?_)
  · refine Yields.bind (Yields.read ?_)
    refine Yields.bind (Yields.of_eq (Store.run_addTask _ _) fun t ht => ?_)
    cases ht
    exact Yields.bind (Yields.of_eq (Store.run_enqueue _ _) fun _ _ => Yields.pure (hstep c hmem u hu))
  · refine Yields.bind (Yields.read ?_)
    exact Yields.bind (Yields.of_eq (Store.run_setGather _ _ _) fun _ _ =>
      Yields.pure (hend t cs ht.1 ht.2))

/-- A handle the loop may run while waiting for a batch: a step or wake of a task from
`main + 2` on, the main task's wake by the settling task `main + 1`, the settling task's wake by
gather `g`, a report to a gather from `g` on, or the stop. -/
def Safe (main g : Nat) : Handle → Prop
  | .step tid _ => main + 2 ≤ tid
  | .wake tid on => main + 2 ≤ tid ∨ (tid = main ∧ on = .task (main + 1)) ∨
      (tid = main + 1 ∧ on = .gather g)
  | .childDone g' _ => g ≤ g'
  | .stop => True

/-- The loop waiting for batch `b`, which was `bt` when the wait began: the main task `main`
waits for the settling task `main + 1`, which waits for gather `g` over the batch's pending
coroutines and alone writes the batch; every task from `main + 2` on runs coroutines of the
runner's kind and reports to gathers from `g` on, and every gather after `g` wakes only such
tasks; every queued handle is safe. -/
structure Waiting (b main g : Nat) (bt : Batch) (s : Store) : Prop where
  settler_lt : main + 1 < s.tasks.size
  batch_lt : b < s.batches.size
  gather_lt : g < s.gathers.size
  main_waits : (Store.at! s.tasks main).result = none →
    (Store.at! s.tasks main).frames = [.batchWaited b]
  main_callbacks : (Store.at! s.tasks main).callbacks = [.stop]
  main_ok : ∀ v, (Store.at! s.tasks main).result = some (.ok v) →
    ∃ v', (Store.at! s.tasks (main + 1)).result = some (.ok v')
  settler_waits : (Store.at! s.tasks (main + 1)).result = none →
    (Store.at! s.tasks (main + 1)).frames = [.batchGathered b] ∧
      Store.at! s.batches b = { bt with task := some (main + 1) }
  settler_callbacks : (Store.at! s.tasks (main + 1)).callbacks = [.wake main (.task (main + 1))]
  settler_ok : ∀ v, (Store.at! s.tasks (main + 1)).result = some (.ok v) →
    ∃ codes : List Value, codes.length = bt.pending.length ∧
      Store.at! s.batches b =
        { bt with outcomes := record bt.outcomes codes, done := true, task := some (main + 1) }
  children : (Store.at! s.gathers g).children.length = bt.pending.length
  gather_callbacks : (Store.at! s.gathers g).callbacks = [.wake (main + 1) (.gather g)]
  gather_ok : ∀ v, (Store.at! s.gathers g).result = some (.ok v) →
    ∃ vs, v = .list vs ∧ vs.length = bt.pending.length
  plain_frames : ∀ tid, main + 2 ≤ tid → ∀ fr ∈ (Store.at! s.tasks tid).frames, fr.Plain
  plain_callbacks : ∀ tid, main + 2 ≤ tid → ∀ h ∈ (Store.at! s.tasks tid).callbacks,
    ∃ g' c, h = .childDone g' c ∧ g ≤ g'
  gather_wakes : ∀ g', g < g' → ∀ h ∈ (Store.at! s.gathers g').callbacks,
    ∃ w on, h = .wake w on ∧ main + 2 ≤ w
  ready : ∀ h ∈ s.ready, Safe main g h

namespace Waiting

variable {b main g : Nat} {bt : Batch} {s : Store}

/-- The invariant reads only the pending work. -/
theorem of_work (h : Waiting b main g bt s) {t : Store} (hb : t.batches = s.batches)
    (ht : t.tasks = s.tasks) (hg : t.gathers = s.gathers) (hr : t.ready = s.ready) :
    Waiting b main g bt t := by
  obtain ⟨h1, h2, h3, h4, h5, h6, h7, h8, h9, h10, h11, h12, h13, h14, h15, h16⟩ := h
  rw [← hb, ← ht] at *
  rw [← hg] at *
  rw [← hr] at h16
  exact ⟨h1, h2, h3, h4, h5, h6, h7, h8, h9, h10, h11, h12, h13, h14, h15, h16⟩

/-! #### Store operations -/

/-- Clearing the queue keeps the loop waiting. -/
theorem clear (h : Waiting b main g bt s) : Waiting b main g bt { s with ready := [] } where
  __ := h
  ready := nofun

theorem enqueue (h : Waiting b main g bt s) {hd : Handle} (hs : Safe main g hd) :
    Waiting b main g bt { s with ready := s.ready ++ [hd] } where
  __ := h
  ready x hx := by
    rcases List.mem_append.mp hx with hx | hx
    · exact h.ready x hx
    · rw [List.mem_singleton.mp hx]
      exact hs

/-- Setting a task from `main + 2` on to frames and callbacks of the runner's kind keeps the
loop waiting. -/
theorem setTask (h : Waiting b main g bt s) {tid : Nat} (htid : main + 2 ≤ tid) {x : Task}
    (hframes : ∀ fr ∈ x.frames, fr.Plain)
    (hcalls : ∀ hd ∈ x.callbacks, ∃ g' c, hd = .childDone g' c ∧ g ≤ g') :
    Waiting b main g bt { s with tasks := s.tasks.setIfInBounds tid x } := by
  have h0 : tid ≠ main := by omega
  have h1 : tid ≠ main + 1 := by omega
  refine ⟨by simpa using h.settler_lt, h.batch_lt, h.gather_lt, ?_, ?_, ?_, ?_, ?_, ?_, h.children,
    h.gather_callbacks, h.gather_ok, ?_, ?_, h.gather_wakes, h.ready⟩
  all_goals simp only [Store.at!_setIfInBounds, h0, h1, false_and, if_false]
  · exact h.main_waits
  · exact h.main_callbacks
  · exact h.main_ok
  · exact h.settler_waits
  · exact h.settler_callbacks
  · exact h.settler_ok
  · intro j hj fr hfr
    split_ifs at hfr
    · exact hframes fr hfr
    · exact h.plain_frames j hj fr hfr
  · intro j hj hd hhd
    split_ifs at hhd
    · exact hcalls hd hhd
    · exact h.plain_callbacks j hj hd hhd

/-- Adding a task of the runner's kind keeps the loop waiting. -/
theorem addTask (h : Waiting b main g bt s) {x : Task} (hframes : ∀ fr ∈ x.frames, fr.Plain)
    (hcalls : ∀ hd ∈ x.callbacks, ∃ g' c, hd = .childDone g' c ∧ g ≤ g') :
    Waiting b main g bt { s with tasks := s.tasks.push x } := by
  have h0 : main < s.tasks.size := by have := h.settler_lt; omega
  have h1 := h.settler_lt
  refine ⟨by simp; omega, h.batch_lt, h.gather_lt, ?_, ?_, ?_, ?_, ?_, ?_, h.children,
    h.gather_callbacks, h.gather_ok, ?_, ?_, h.gather_wakes, h.ready⟩
  all_goals simp only [Store.at!_push_of_lt _ _ h0, Store.at!_push_of_lt _ _ h1]
  · exact h.main_waits
  · exact h.main_callbacks
  · exact h.main_ok
  · exact h.settler_waits
  · exact h.settler_callbacks
  · exact h.settler_ok
  · intro j hj fr hfr
    rw [Store.at!_push] at hfr
    split_ifs at hfr
    · exact h.plain_frames j hj fr hfr
    · exact hframes fr hfr
    · cases hfr
  · intro j hj hd hhd
    rw [Store.at!_push] at hhd
    split_ifs at hhd
    · exact h.plain_callbacks j hj hd hhd
    · exact hcalls hd hhd
    · cases hhd

/-- Setting a gather after `g` to one that wakes only tasks of the runner's kind keeps the loop
waiting. -/
theorem setGather (h : Waiting b main g bt s) {g' : Nat} (hg' : g < g') {x : Gather}
    (hcalls : ∀ hd ∈ x.callbacks, ∃ w on, hd = .wake w on ∧ main + 2 ≤ w) :
    Waiting b main g bt { s with gathers := s.gathers.setIfInBounds g' x } := by
  have hne : g' ≠ g := by omega
  refine ⟨h.settler_lt, h.batch_lt, by simpa using h.gather_lt, h.main_waits, h.main_callbacks,
    h.main_ok, h.settler_waits, h.settler_callbacks, h.settler_ok, ?_, ?_, ?_, h.plain_frames,
    h.plain_callbacks, ?_, h.ready⟩
  all_goals simp only [Store.at!_setIfInBounds, hne, false_and, if_false]
  · exact h.children
  · exact h.gather_callbacks
  · exact h.gather_ok
  · intro j hj hd hhd
    split_ifs at hhd
    · exact hcalls hd hhd
    · exact h.gather_wakes j hj hd hhd

/-- Adding a gather with no waiters keeps the loop waiting. -/
theorem addGather (h : Waiting b main g bt s) (children : List Nat) :
    Waiting b main g bt { s with gathers := s.gathers.push { children } } := by
  have hg := h.gather_lt
  refine ⟨h.settler_lt, h.batch_lt, by simp; omega, h.main_waits, h.main_callbacks,
    h.main_ok, h.settler_waits, h.settler_callbacks, h.settler_ok, ?_, ?_, ?_, h.plain_frames,
    h.plain_callbacks, ?_, h.ready⟩
  all_goals simp only [Store.at!_push_of_lt _ _ hg]
  · exact h.children
  · exact h.gather_callbacks
  · exact h.gather_ok
  · intro j hj hd hhd
    rw [Store.at!_push] at hhd
    split_ifs at hhd
    · exact h.gather_wakes j hj hd hhd
    · cases hhd
    · cases hhd

/-- Counting a report to gather `g'` from `g` on, and giving it a result, keeps the loop waiting,
when a value it gives `g` is a list of one value per pending coroutine. -/
theorem report (h : Waiting b main g bt s) {g' : Nat} (hg' : g ≤ g') (finished : Nat)
    (result : Option (Except Fault Value))
    (hres : g' = g → ∀ v, result = some (.ok v) →
      ∃ vs, v = .list vs ∧ vs.length = bt.pending.length) :
    Waiting b main g bt { s with
      gathers := s.gathers.setIfInBounds g'
        { Store.at! s.gathers g' with finished := finished, result := result } } := by
  rcases Nat.lt_or_eq_of_le hg' with hlt | rfl
  · exact h.setGather hlt fun hd hhd => h.gather_wakes g' hlt hd hhd
  · have hlt := h.gather_lt
    refine ⟨h.settler_lt, h.batch_lt, by simpa using hlt, h.main_waits, h.main_callbacks,
      h.main_ok, h.settler_waits, h.settler_callbacks, h.settler_ok, ?_, ?_, ?_, h.plain_frames,
      h.plain_callbacks, ?_, h.ready⟩
    all_goals simp only [Store.at!_setIfInBounds, hlt, and_true, if_true]
    · exact h.children
    · exact h.gather_callbacks
    · exact hres rfl
    · intro j hj hd hhd
      rw [if_neg (by omega)] at hhd
      exact h.gather_wakes j hj hd hhd

/-- A gather from `g` on wakes only safe handles. -/
theorem gather_safe (h : Waiting b main g bt s) {g' : Nat} (hg' : g ≤ g') :
    ∀ hd ∈ (Store.at! s.gathers g').callbacks, Safe main g hd := by
  intro hd hhd
  rcases Nat.lt_or_eq_of_le hg' with hlt | rfl
  · obtain ⟨w, on, rfl, hw⟩ := h.gather_wakes g' hlt hd hhd
    exact .inl hw
  · rw [h.gather_callbacks, List.mem_singleton] at hhd
    subst hhd
    exact .inr (.inr ⟨rfl, rfl⟩)

/-- A task from `main + 2` on reports only to gathers from `g` on. -/
theorem task_safe (h : Waiting b main g bt s) {tid : Nat} (htid : main + 2 ≤ tid) :
    ∀ hd ∈ (Store.at! s.tasks tid).callbacks, Safe main g hd := by
  intro hd hhd
  obtain ⟨g', c, rfl, hg'⟩ := h.plain_callbacks tid htid hd hhd
  exact hg'

/-! #### Steps of the loop -/

/-- Queuing safe handles keeps the loop waiting. -/
theorem enqueueAll (h : Waiting b main g bt s) {hs : List Handle}
    (hsafe : ∀ hd ∈ hs, Safe main g hd) :
    Yields (forIn hs PUnit.unit fun hd _ => do
        Store.enqueue hd
        pure (ForInStep.yield PUnit.unit)) s fun _ t => Waiting b main g bt t :=
  Yields.forIn_inv _ (fun hd hmem _ _ hu => Yields.bind (Yields.of_eq (Store.run_enqueue _ _)
    fun _ _ => Yields.pure (hu.enqueue (hsafe hd hmem)))) _ _ h

/-- A run of the checker in the middle of a step leaves the pending work alone. -/
theorem attempt (h : Waiting b main g bt s) {α : Type} {m : Run α}
    (hm : ∀ B T G R, Commutes (.work B T G R) m) :
    Yields (Loop.attempt m) s fun _ t => Waiting b main g bt t := by
  intro a t ht
  have hw := Commutes.work_eq (m := Loop.attempt m)
    (fun B T G R => by have := hm B T G R; infer_instance) s
  rw [ht] at hw
  exact h.of_work hw.1 hw.2.1 hw.2.2.1 hw.2.2.2

/-- Finishing a task from `main + 2` on keeps the loop waiting. -/
theorem finish (h : Waiting b main g bt s) {tid : Nat} (htid : main + 2 ≤ tid)
    (r : Except Fault Value) : Yields (Loop.finish tid r) s fun _ t => Waiting b main g bt t := by
  unfold Loop.finish
  refine Yields.bind (Yields.read ?_)
  refine Yields.bind (Yields.of_eq (Store.run_setTask _ _ _) fun _ _ => ?_)
  have h₁ := h.setTask htid (x := { Store.at! s.tasks tid with frames := [], result := some r })
    nofun (h.plain_callbacks tid htid)
  exact Yields.bind ((h₁.enqueueAll (h.task_safe htid)).mono fun _ _ ht => Yields.pure ht)

/-- Suspending a task from `main + 2` on until a gather after `g` is done keeps the loop
waiting. -/
theorem waitOn (h : Waiting b main g bt s) {tid : Nat} (htid : main + 2 ≤ tid) {frames : List Frame}
    (hframes : ∀ fr ∈ frames, fr.Plain) {g' : Nat} (hg' : g < g') :
    Yields (Loop.waitOn tid frames (.gather g')) s fun _ t => Waiting b main g bt t := by
  unfold Loop.waitOn
  refine Yields.bind (Yields.read ?_)
  refine Yields.bind (Yields.of_eq (Store.run_setTask _ _ _) fun _ _ => ?_)
  have h₁ := h.setTask htid (x := { Store.at! s.tasks tid with frames }) hframes
    (h.plain_callbacks tid htid)
  refine Yields.bind (Yields.read ?_)
  refine Yields.of_eq (Store.run_setGather _ _ _) fun _ _ => h₁.setGather hg' fun hd hhd => ?_
  rcases List.mem_append.mp hhd with hhd | hhd
  · exact h₁.gather_wakes g' hg' hd hhd
  · rw [List.mem_singleton.mp hhd]
    exact ⟨tid, _, rfl, htid⟩

/-- Starting one task per coroutine of the runner's kind, and a gather over them, keeps the loop
waiting; the gather comes after `g`. -/
theorem gatherAll (h : Waiting b main g bt s) {coros : List Coro} (hc : ∀ c ∈ coros, c.Plain) :
    Yields (Loop.gatherAll coros) s fun g' t => Waiting b main g bt t ∧ g < g' := by
  refine gatherAll_yields (Waiting b main g bt) _ (h.addGather []) (fun c hmem u hu => ?_)
    fun u cs hu _ => ⟨hu.setGather h.gather_lt (hu.gather_wakes _ h.gather_lt), h.gather_lt⟩
  have hsize : main + 2 ≤ u.tasks.size := by have := hu.settler_lt; omega
  exact (hu.addTask (by simpa [Frame.Plain] using hc c hmem) (by simpa using h.gather_lt.le)).enqueue
    (show Safe main g (.step u.tasks.size .start) from hsize)

/-- Reporting a finished task to a gather from `g` on keeps the loop waiting. -/
theorem childDone (h : Waiting b main g bt s) {g' : Nat} (hg' : g ≤ g') (c : Nat) :
    Yields (Loop.childDone g' c) s fun _ t => Waiting b main g bt t := by
  unfold Loop.childDone
  refine Yields.bind (Yields.read ?_)
  dsimp only
  have hsame : g' = g → ∀ v, (Store.at! s.gathers g').result = some (.ok v) →
      ∃ vs, v = .list vs ∧ vs.length = bt.pending.length := fun hgg v hv => by
    subst hgg
    exact h.gather_ok v hv
  split
  · -- a gather already done only counts the report
    exact Yields.bind (Yields.of_eq (Store.run_setGather _ _ _) fun _ _ =>
      Yields.pure (h.report hg' _ _ hsame))
  refine Yields.bind (Yields.read ?_)
  split
  · -- a failed child fails the gather and wakes its waiters
    refine Yields.bind (Yields.of_eq (Store.run_setGather _ _ _) fun _ _ => ?_)
    exact Yields.bind (((h.report hg' _ (some (.error _)) fun _ v hv => by cases hv).enqueueAll
      (h.gather_safe hg')).mono fun _ _ ht => Yields.pure ht)
  split
  · -- the last child: the gather is done with one value per child, in the children's order
    refine Yields.bind ((Yields.mapM_reads (fun c u => Yields.bind (Yields.read (by
      split <;> exact Yields.pure rfl))) _ s).mono fun values t hv => ?_)
    obtain ⟨hlen, rfl⟩ := hv
    refine Yields.bind (Yields.of_eq (Store.run_setGather _ _ _) fun _ _ => ?_)
    refine Yields.bind (((h.report hg' _ (some (.ok (.list values))) fun hgg v hv => ?_).enqueueAll
      (h.gather_safe hg')).mono fun _ _ ht => Yields.pure ht)
    cases hv
    exact ⟨values, rfl, hlen.trans (by subst hgg; exact h.children)⟩
  · exact Yields.of_eq (Store.run_setGather _ _ _) fun _ _ => h.report hg' _ _ hsame

/-- The pending work a run of the checker leaves is the pending work it found. -/
theorem attempt_resume (h : Waiting b main g bt s) (k : Step) (x : Value) :
    Yields (Loop.attempt (Run.resume Run.depth k x)) s fun r t =>
      Waiting b main g bt t ∧ ∀ o, r = .ok o → o.Plain := by
  refine (h.attempt fun _ _ _ _ => inferInstance).and ?_
  unfold Loop.attempt
  refine Yields.tryCatch (Yields.map ((Run.resume_plain _ k x s).mono fun o _ ho o' h => ?_))
    fun e _ _ => Yields.pure fun _ h => by cases h
  cases h
  exact ho

/-- **One step of a task from `main + 2` on keeps the loop waiting**: at every depth, running
frames of the runner's kind, or starting a coroutine of its kind. -/
theorem advance_begin : ∀ d,
    (∀ tid frames input s, main + 2 ≤ tid → (∀ fr ∈ frames, Frame.Plain fr) →
      Waiting b main g bt s → Yields (advance d tid frames input) s fun _ t => Waiting b main g bt t) ∧
    (∀ tid c rest s, main + 2 ≤ tid → c.Plain → (∀ fr ∈ rest, Frame.Plain fr) →
      Waiting b main g bt s → Yields (begin d tid c rest) s fun _ t => Waiting b main g bt t)
  | 0 => ⟨fun _ _ _ _ htid _ h => by rw [Loop.advance.eq_1]; exact h.finish htid _,
      fun _ _ _ _ htid _ _ h => by rw [Loop.begin.eq_1]; exact h.finish htid _⟩
  | d + 1 => by
    obtain ⟨iha, ihb⟩ := advance_begin d
    constructor
    · intro tid frames input s htid hf h
      have htail : ∀ {fr : Frame} {rest : List Frame}, frames = fr :: rest → ∀ x ∈ rest, x.Plain :=
        fun he x hx => hf x (by rw [he]; exact List.mem_cons_of_mem _ hx)
      rw [Loop.advance.eq_def]
      dsimp only
      split
      · exact h.finish htid _
      · exact h.finish htid _
      · exact h.finish htid _
      · exact iha tid _ _ s htid (htail rfl) h
      · exact ihb tid _ _ s htid (hf _ List.mem_cons_self) (htail rfl) h
      · -- a rule's coroutine resumed: the rule runs, and the frames below get its answer
        refine Yields.bind ((h.attempt fun _ _ _ _ => inferInstance).mono fun r t ht => ?_)
        split <;> exact iha tid _ _ t htid (htail rfl) ht
      · -- a step resumed: what it hands back is of the runner's kind
        refine Yields.bind ((h.attempt_resume _ _).mono fun r t ht => ?_)
        obtain ⟨ht, hr⟩ := ht
        split
        · exact iha tid _ _ t htid (htail rfl) ht
        · rename_i c
          refine iha tid _ _ t htid (fun fr hfr => ?_) ht
          rcases List.mem_cons.mp hfr with rfl | hfr
          · exact hr _ rfl c rfl
          · exact htail rfl fr hfr
        · exact iha tid _ _ t htid (htail rfl) ht
      · refine Yields.bind ((h.attempt fun _ _ _ _ => inferInstance).mono fun r t ht => ?_)
        split <;> exact iha tid _ _ t htid (htail rfl) ht
      · exact (hf _ List.mem_cons_self).elim
      · exact iha tid _ _ s htid (htail rfl) h
      · exact iha tid _ _ s htid (htail rfl) h
    · intro tid c rest s htid hc hr h
      rw [Loop.begin.eq_def]
      dsimp only
      cases hc with
      | rule inner v =>
        refine Yields.bind (Yields.read ?_)
        refine Yields.bind (Yields.of_eq (Store.run_setTask _ _ _) fun _ _ => ?_)
        refine Yields.of_eq (Store.run_enqueue _ _) fun _ _ => ?_
        refine (h.setTask htid (x := { Store.at! s.tasks tid with frames := .woken inner v :: rest })
          (fun fr hfr => ?_) (h.plain_callbacks tid htid)).enqueue (show Safe main g (.step tid .start) from htid)
        rcases List.mem_cons.mp hfr with rfl | hfr
        · trivial
        · exact hr fr hfr
      | settled x => exact iha tid _ _ s htid hr h
      | chain k hsrc =>
        refine iha tid _ _ s htid (fun fr hfr => ?_) h
        rcases List.mem_cons.mp hfr with rfl | hfr
        · exact hsrc
        rcases List.mem_cons.mp hfr with rfl | hfr
        · trivial
        · exact hr fr hfr
      | settleContext ctx hres =>
        refine Yields.bind ((h.gatherAll hres).mono fun g' t ht => ?_)
        refine ht.1.waitOn htid (fun fr hfr => ?_) ht.2
        rcases List.mem_cons.mp hfr with rfl | hfr
        · trivial
        · exact hr fr hfr

/-- Stepping a task from `main + 2` on keeps the loop waiting. -/
theorem stepTask (h : Waiting b main g bt s) {tid : Nat} (htid : main + 2 ≤ tid) (input : Resume) :
    Yields (Loop.stepTask tid input) s fun _ t => Waiting b main g bt t := by
  unfold Loop.stepTask
  refine Yields.bind (Yields.read ?_)
  split
  · exact Yields.pure h
  · exact (advance_begin Run.depth).1 tid _ input s htid (h.plain_frames tid htid) h

/-- Setting the main task keeps the loop waiting, when it keeps its waiter and finishes well only
after the settling task has. -/
theorem setMain (h : Waiting b main g bt s) {x : Task} (hcb : x.callbacks = [.stop])
    (hwaits : x.result = none → x.frames = [.batchWaited b])
    (hok : ∀ v, x.result = some (.ok v) → ∃ v', (Store.at! s.tasks (main + 1)).result = some (.ok v')) :
    Waiting b main g bt { s with tasks := s.tasks.setIfInBounds main x } := by
  have hlt : main < s.tasks.size := by have := h.settler_lt; omega
  refine ⟨by simpa using h.settler_lt, h.batch_lt, h.gather_lt, ?_, ?_, ?_, ?_, ?_, ?_, h.children,
    h.gather_callbacks, h.gather_ok, ?_, ?_, h.gather_wakes, h.ready⟩
  all_goals simp only [Store.at!_setIfInBounds, hlt, and_true, if_true, Nat.ne_of_lt
    (Nat.lt_succ_self main), if_false]
  · exact hwaits
  · exact hcb
  · exact hok
  · exact h.settler_waits
  · exact h.settler_callbacks
  · exact h.settler_ok
  · intro j hj fr hfr
    rw [if_neg (by omega)] at hfr
    exact h.plain_frames j hj fr hfr
  · intro j hj hd hhd
    rw [if_neg (by omega)] at hhd
    exact h.plain_callbacks j hj hd hhd

/-- Finishing the settling task with a fault keeps the loop waiting: the main task has not
finished well before it. -/
theorem failSettler (h : Waiting b main g bt s)
    (hnone : (Store.at! s.tasks (main + 1)).result = none) (f : Fault) :
    Waiting b main g bt { s with
      tasks := s.tasks.setIfInBounds (main + 1)
        { Store.at! s.tasks (main + 1) with frames := [], result := some (.error f) } } := by
  have hlt := h.settler_lt
  refine ⟨by simpa using h.settler_lt, h.batch_lt, h.gather_lt, ?_, ?_, ?_, ?_, ?_, ?_, h.children,
    h.gather_callbacks, h.gather_ok, ?_, ?_, h.gather_wakes, h.ready⟩
  all_goals simp only [Store.at!_setIfInBounds, hlt, and_true, if_true, Nat.ne_of_gt
    (Nat.lt_succ_self main), if_false]
  · exact h.main_waits
  · exact h.main_callbacks
  · intro v hv
    obtain ⟨v', hv'⟩ := h.main_ok v hv
    rw [hnone] at hv'
    cases hv'
  · nofun
  · exact h.settler_callbacks
  · nofun
  · intro j hj fr hfr
    rw [if_neg (by omega)] at hfr
    exact h.plain_frames j hj fr hfr
  · intro j hj hd hhd
    rw [if_neg (by omega)] at hhd
    exact h.plain_callbacks j hj hd hhd

/-- **The settling task records the batch**: it writes the gathered values in place of the
pending outcomes, marks the batch done, and finishes. -/
theorem record (h : Waiting b main g bt s) {vs : List Value} (hvs : vs.length = bt.pending.length) :
    Waiting b main g bt { s with
      batches := s.batches.setIfInBounds b
        { bt with outcomes := Loop.record bt.outcomes vs, done := true, task := some (main + 1) }
      tasks := s.tasks.setIfInBounds (main + 1)
        { Store.at! s.tasks (main + 1) with frames := [], result := some (.ok .none) } } := by
  have hlt := h.settler_lt
  refine ⟨by simpa using h.settler_lt, by simpa using h.batch_lt, h.gather_lt, ?_, ?_, ?_, ?_, ?_,
    ?_, h.children, h.gather_callbacks, h.gather_ok, ?_, ?_, h.gather_wakes, h.ready⟩
  all_goals simp only [Store.at!_setIfInBounds, hlt, h.batch_lt, and_true, if_true, Nat.ne_of_gt
    (Nat.lt_succ_self main), if_false]
  · exact h.main_waits
  · exact h.main_callbacks
  · intro v hv
    simp
  · nofun
  · exact h.settler_callbacks
  · intro v hv
    exact ⟨vs, hvs, rfl⟩
  · intro j hj fr hfr
    rw [if_neg (by omega)] at hfr
    exact h.plain_frames j hj fr hfr
  · intro j hj hd hhd
    rw [if_neg (by omega)] at hhd
    exact h.plain_callbacks j hj hd hhd

/-- Finishing the main task keeps the loop waiting, when it finishes well only after the
settling task has. -/
theorem finishMain (h : Waiting b main g bt s) (r : Except Fault Value)
    (hr : ∀ v, r = .ok v → ∃ v', (Store.at! s.tasks (main + 1)).result = some (.ok v')) :
    Yields (Loop.finish main r) s fun _ t => Waiting b main g bt t := by
  unfold Loop.finish
  refine Yields.bind (Yields.read ?_)
  refine Yields.bind (Yields.of_eq (Store.run_setTask _ _ _) fun _ _ => ?_)
  have h₁ := h.setMain (x := { Store.at! s.tasks main with frames := [], result := some r })
    h.main_callbacks nofun fun v hv => hr v (by cases hv; rfl)
  refine Yields.bind ((h₁.enqueueAll fun hd hhd => ?_).mono fun _ _ ht => Yields.pure ht)
  rw [h.main_callbacks, List.mem_singleton] at hhd
  subst hhd
  trivial

/-- **The main task, woken by the settling task, finishes** with what the settling task gave. -/
theorem wakeMain (h : Waiting b main g bt s) :
    Yields (Loop.handle (.wake main (.task (main + 1)))) s fun _ t => Waiting b main g bt t := by
  simp only [Loop.handle]
  refine Yields.bind (Yields.of_eq (run_resultOf_task _ _) fun r hr => ?_)
  cases hr
  split
  · rename_i v hv
    refine Yields.bind (Yields.mono (P := fun _ t => Waiting b main g bt t) ?_
      fun _ _ ht => Yields.pure ht)
    unfold Loop.stepTask
    refine Yields.bind (Yields.read ?_)
    split
    · exact Yields.pure h
    · rename_i hsome
      rw [h.main_waits (Option.not_isSome_iff_eq_none.mp hsome),
        show Run.depth = 99998 + 1 + 1 from rfl, Loop.advance.eq_11, Loop.advance.eq_2]
      exact h.finishMain _ fun _ he => by cases he; exact ⟨v, hv⟩
  · rename_i f hf
    refine Yields.bind (Yields.mono (P := fun _ t => Waiting b main g bt t) ?_
      fun _ _ ht => Yields.pure ht)
    unfold Loop.stepTask
    refine Yields.bind (Yields.read ?_)
    split
    · exact Yields.pure h
    · rename_i hsome
      rw [h.main_waits (Option.not_isSome_iff_eq_none.mp hsome),
        show Run.depth = 99998 + 1 + 1 from rfl, Loop.advance.eq_5, Loop.advance.eq_3]
      exact h.finishMain _ fun _ he => by cases he
  · exact Yields.pure h

/-- **The settling task, woken by the gather, records the batch** when the gather gave a list of
values, or finishes with the gather's fault. -/
theorem wakeSettler (h : Waiting b main g bt s) :
    Yields (Loop.handle (.wake (main + 1) (.gather g))) s fun _ t => Waiting b main g bt t := by
  simp only [Loop.handle]
  refine Yields.bind (Yields.of_eq (run_resultOf_gather _ _) fun r hr => ?_)
  cases hr
  have hcb : ∀ hd ∈ (Store.at! s.tasks (main + 1)).callbacks, Safe main g hd := by
    intro hd hhd
    rw [h.settler_callbacks, List.mem_singleton] at hhd
    subst hhd
    exact .inr (.inl ⟨rfl, rfl⟩)
  split
  · rename_i v hv
    obtain ⟨vs, rfl, hvs⟩ := h.gather_ok v hv
    refine Yields.bind (Yields.mono (P := fun _ t => Waiting b main g bt t) ?_
      fun _ _ ht => Yields.pure ht)
    unfold Loop.stepTask
    refine Yields.bind (Yields.read ?_)
    split
    · exact Yields.pure h
    · rename_i hsome
      have hnone := Option.not_isSome_iff_eq_none.mp hsome
      obtain ⟨hframes, hbatch⟩ := h.settler_waits hnone
      rw [hframes, show Run.depth = 99998 + 1 + 1 from rfl, Loop.advance.eq_10]
      refine Yields.bind (Yields.read ?_)
      refine Yields.bind (Yields.of_eq (Store.run_setBatch _ _ _) fun _ _ => ?_)
      rw [Loop.advance.eq_2]
      unfold Loop.finish
      refine Yields.bind (Yields.read ?_)
      refine Yields.bind (Yields.of_eq (Store.run_setTask _ _ _) fun _ _ => ?_)
      rw [hbatch]
      exact Yields.bind (((h.record hvs).enqueueAll hcb).mono fun _ _ ht => Yields.pure ht)
  · rename_i f hf
    refine Yields.bind (Yields.mono (P := fun _ t => Waiting b main g bt t) ?_
      fun _ _ ht => Yields.pure ht)
    unfold Loop.stepTask
    refine Yields.bind (Yields.read ?_)
    split
    · exact Yields.pure h
    · rename_i hsome
      have hnone := Option.not_isSome_iff_eq_none.mp hsome
      rw [(h.settler_waits hnone).1, show Run.depth = 99998 + 1 + 1 from rfl, Loop.advance.eq_5,
        Loop.advance.eq_3]
      unfold Loop.finish
      refine Yields.bind (Yields.read ?_)
      refine Yields.bind (Yields.of_eq (Store.run_setTask _ _ _) fun _ _ => ?_)
      exact Yields.bind (((h.failSettler hnone f).enqueueAll hcb).mono fun _ _ ht => Yields.pure ht)
  · exact Yields.pure h

/-- **Every safe handle keeps the loop waiting.** -/
theorem handle (h : Waiting b main g bt s) {hd : Handle} (hs : Safe main g hd) :
    Yields (Loop.handle hd) s fun _ t => Waiting b main g bt t := by
  cases hd with
  | step tid input =>
    simp only [Loop.handle]
    exact Yields.bind ((h.stepTask hs input).mono fun _ _ ht => Yields.pure ht)
  | wake tid on =>
    rcases hs with hs | ⟨rfl, rfl⟩ | ⟨rfl, rfl⟩
    · -- a task of the runner's kind, woken with whatever it waited for
      simp only [Loop.handle]
      refine Yields.bind (Yields.mono (P := fun _ t => t = s) ?_ fun r t ht => ?_)
      · cases on <;> exact Yields.of_eq rfl fun _ _ => rfl
      subst ht
      split
      · exact Yields.bind ((h.stepTask hs _).mono fun _ _ ht => Yields.pure ht)
      · exact Yields.bind ((h.stepTask hs _).mono fun _ _ ht => Yields.pure ht)
      · exact Yields.pure h
    · exact h.wakeMain
    · exact h.wakeSettler
  | childDone g' c =>
    simp only [Loop.handle]
    exact Yields.bind ((h.childDone hs c).mono fun _ _ ht => Yields.pure ht)
  | stop => exact Yields.pure h

end Waiting

/-- **Rounds of the loop keep it waiting.** Each round runs the handles queued when it began,
each of them safe. -/
theorem Waiting.rounds {b main g : Nat} {bt : Batch} :
    ∀ (fuel : Nat) (s : Store), Waiting b main g bt s →
      Yields (Loop.rounds fuel) s fun _ t => Waiting b main g bt t
  | 0, s, h => by
    rw [Loop.rounds]
    exact Yields.pure h
  | fuel + 1, s, h => by
    rw [Loop.rounds.eq_2]
    refine Yields.bind (Yields.of_eq (Run.run_get s) fun _ ha => ?_)
    cases ha
    refine Yields.bind (Yields.of_eq (Run.run_set _ _) fun _ _ => ?_)
    refine Yields.bind ((Yields.foldlM_inv (Waiting b main g bt) (fun a hd hmem u hu => ?_) _ _
      h.clear).mono fun stopped t ht => ?_)
    · exact Yields.bind ((hu.handle (h.ready hd hmem)).mono fun _ _ hv => Yields.pure hv)
    refine Yields.bind (Yields.of_eq (Run.run_get t) fun _ ha => ?_)
    cases ha
    split
    · exact Yields.pure ht
    · exact Waiting.rounds fuel t ht

/-! ### The first two rounds -/

/-- The loop after the first round of waiting for batch `b`: the main task `main` waits for the
settling task `main + 1`, which is queued to start, and the batch names it as its settling
task. -/
structure Started (b main : Nat) (bt : Batch) (s : Store) : Prop where
  size : s.tasks.size = main + 2
  batch_lt : b < s.batches.size
  main_task : Store.at! s.tasks main = { frames := [.batchWaited b], callbacks := [.stop] }
  settler_task : Store.at! s.tasks (main + 1) =
    { frames := [.begin (.settleBatch b)], callbacks := [.wake main (.task (main + 1))] }
  batch : Store.at! s.batches b = { bt with task := some (main + 1) }
  ready : s.ready = [.step (main + 1) .start]

/-- **The first round**: the main task, waiting for a batch that has not settled and has no
settling task, starts one and waits for it. -/
theorem Started.first {s : Store} {b : Nat} {bt : Batch} (hb : b < s.batches.size)
    (hbt : Store.at! s.batches b = bt) (hdone : bt.done = false) (htask : bt.task = none) :
    Yields (handle (.step s.tasks.size .start)) { s with
      tasks := s.tasks.push { frames := [.begin (.waitBatch b)], callbacks := [.stop] }
      ready := [] } fun _ t => Started b s.tasks.size bt t := by
  simp only [handle]
  refine Yields.bind (Yields.mono (P := fun _ t => Started b s.tasks.size bt t) ?_
    fun _ _ ht => Yields.pure ht)
  unfold stepTask
  refine Yields.bind (Yields.read ?_)
  simp only [Store.at!_push_size, Option.isSome_none, Bool.false_eq_true, if_false]
  rw [show Run.depth = 99998 + 1 + 1 from rfl, advance.eq_6 _ .start _ _ _ (fun _ h => by cases h), begin.eq_7]
  refine Yields.bind (Yields.read ?_)
  simp only [hbt, hdone, htask, Bool.false_eq_true, if_false]
  -- the settling task is added, queued, and named by the batch
  refine Yields.bind (Yields.of_eq (Store.run_addTask _ _) fun t ht => ?_)
  cases ht
  refine Yields.bind (Yields.of_eq (Store.run_enqueue _ _) fun _ _ => ?_)
  refine Yields.bind (Yields.of_eq (Store.run_setBatch _ _ _) fun _ _ => ?_)
  refine Yields.bind (Yields.pure ?_)
  refine Yields.bind (Yields.read ?_)
  simp only [Store.at!_push_size]
  -- it has not finished, so the main task waits for it
  unfold waitOn
  refine Yields.bind (Yields.read ?_)
  refine Yields.bind (Yields.of_eq (Store.run_setTask _ _ _) fun _ _ => ?_)
  refine Yields.bind (Yields.read ?_)
  refine Yields.of_eq (Store.run_setTask _ _ _) fun _ _ => ?_
  refine ⟨by simp, by simpa using hb, ?_, ?_, ?_, by simp⟩
  · simp [Store.at!_push]
  · simp [Store.at!_push]
  · rw [Store.at!_setIfInBounds, if_pos ⟨rfl, hb⟩, ← hdone]
    simp

/-- While the settling task starts the batch's children, from store `s`: the batches are as they
were and the new gather has no children yet; the first two tasks are untouched; every later
task runs coroutines of the runner's kind and reports to a gather from `G` on; and every
queued handle is safe. -/
structure Spawning (main G : Nat) (s u : Store) : Prop where
  batches : u.batches = s.batches
  gathers : u.gathers = s.gathers.push { children := [] }
  first_tasks : ∀ i < main + 2, Store.at! u.tasks i = Store.at! s.tasks i
  size_le : main + 2 ≤ u.tasks.size
  later_tasks : ∀ j, main + 2 ≤ j → (∀ fr ∈ (Store.at! u.tasks j).frames, fr.Plain) ∧
    ∀ hd ∈ (Store.at! u.tasks j).callbacks, ∃ g' c, hd = .childDone g' c ∧ G ≤ g'
  ready : ∀ hd ∈ u.ready, Safe main G hd

/-- Before the first child, nothing is queued and no task comes after the first two. -/
theorem Spawning.start {b main : Nat} {bt : Batch} {s : Store} (h : Started b main bt s) :
    Spawning main s.gathers.size s
      { s with ready := [], gathers := s.gathers.push { children := [] } } := by
  refine ⟨rfl, rfl, fun _ _ => rfl, by rw [h.size], fun j hj => ?_, nofun⟩
  rw [Store.at!_of_size_le (by rw [h.size]; exact hj)]
  exact ⟨nofun, nofun⟩

/-- Starting a child of the runner's kind that reports to gather `G` keeps the invariant. -/
theorem Spawning.push {main G : Nat} {s u : Store} {c : Coro} (hc : c.Plain)
    (hu : Spawning main G s u) :
    Spawning main G s { u with
      tasks := u.tasks.push { frames := [.begin c], callbacks := [.childDone G u.tasks.size] }
      ready := u.ready ++ [.step u.tasks.size .start] } := by
  obtain ⟨hb, hg, hold, hsize, hplain', hready⟩ := hu
  refine ⟨hb, hg, fun i hi => ?_, by simp; omega, fun j hj => ?_, fun hd hhd => ?_⟩
  · rw [Store.at!_push_of_lt _ _ (by omega)]
    exact hold i hi
  · rw [Store.at!_push]
    split_ifs
    · exact hplain' j hj
    · exact ⟨by simpa [Frame.Plain] using hc, by simp⟩
    · exact ⟨nofun, nofun⟩
  · rcases List.mem_append.mp hhd with hhd | hhd
    · exact hready hd hhd
    · rw [List.mem_singleton.mp hhd]
      exact hsize

/-- **The second round**: the settling task starts one child task per pending coroutine of the
batch, and a gather over them, and waits for the gather. From here the loop is waiting. -/
theorem Started.second {b main : Nat} {bt : Batch} {s : Store} (h : Started b main bt s)
    (hplain : ∀ c ∈ bt.pending, c.Plain) :
    Yields (handle (.step (main + 1) .start)) { s with ready := [] }
      fun _ t => Waiting b main s.gathers.size bt t := by
  simp only [handle]
  refine Yields.bind (Yields.mono (P := fun _ t => Waiting b main s.gathers.size bt t) ?_
    fun _ _ ht => Yields.pure ht)
  unfold stepTask
  refine Yields.bind (Yields.read ?_)
  simp only [h.settler_task, Option.isSome_none, Bool.false_eq_true, if_false]
  rw [show Run.depth = 99998 + 1 + 1 from rfl, advance.eq_6 _ .start _ _ _ (fun _ h => by cases h),
    begin.eq_6]
  refine Yields.bind (Yields.read ?_)
  simp only [h.batch]
  -- the children: tasks of the runner's kind after the first two, each reporting to the gather
  let G := s.gathers.size
  refine Yields.bind ((gatherAll_yields (s := { s with ready := [] }) (Spawning main G s)
    (fun g' t => g' = G ∧ ∃ u cs, Spawning main G s u ∧
    cs.length = bt.pending.length ∧ t = { u with
      gathers := u.gathers.setIfInBounds G { Store.at! u.gathers G with children := cs } })
    (Spawning.start h) (fun c hc _ hu => hu.push (hplain c hc))
    fun u cs hu hcs => ⟨rfl, u, cs, hu, hcs, rfl⟩).mono fun g' t ht => ?_)
  obtain ⟨rfl, u, cs, ⟨hb, hg, hold, hsize, hplain', hready⟩, hcs, rfl⟩ := ht
  -- the settling task waits for the gather
  unfold waitOn
  refine Yields.bind (Yields.read ?_)
  refine Yields.bind (Yields.of_eq (Store.run_setTask _ _ _) fun _ _ => ?_)
  refine Yields.bind (Yields.read ?_)
  refine Yields.of_eq (Store.run_setGather _ _ _) fun _ _ => ?_
  have hG : G < u.gathers.size := by simp [hg, G]
  have hGat : Store.at! u.gathers G = { children := [] } := by simp [hg, G]
  have hmain := hold main (by omega)
  have hsettler := hold (main + 1) (by omega)
  rw [h.main_task] at hmain
  rw [h.settler_task] at hsettler
  have hlt : main + 1 < u.tasks.size := by omega
  have hGdef : G = s.gathers.size := rfl
  refine ⟨by simp; omega, by simpa [hb] using h.batch_lt, by simpa using hG, ?_, ?_, ?_, ?_, ?_, ?_,
    ?_, ?_, ?_, ?_, ?_, ?_, by simpa using hready⟩
  · simp [hmain]
  · simp [hmain]
  · simp [hmain]
  · simp [hlt, hsettler, hb, h.batch]
  · simp [hlt, hsettler]
  · simp [hlt, hsettler]
  · simpa [← hGdef, hG] using hcs
  · simp [← hGdef, hG, hGat]
  · simp [← hGdef, hG, hGat]
  · intro j hj fr hfr
    simp only [Store.at!_setIfInBounds] at hfr
    rw [if_neg (by omega)] at hfr
    exact (hplain' j hj).1 fr hfr
  · intro j hj hd hhd
    simp only [Store.at!_setIfInBounds] at hhd
    rw [if_neg (by omega)] at hhd
    exact (hplain' j hj).2 hd hhd
  · intro j hj hd hhd
    have hjG : ¬(G = j ∧ G < u.gathers.size) := by omega
    simp only [Store.at!_setIfInBounds, Array.size_setIfInBounds, hjG, if_false] at hhd
    rw [Store.at!_of_size_le (j := j) (by simp [hg]; omega)] at hhd
    cases hhd

/-- A round with one handle queued runs it and either stops there or goes on. -/
theorem rounds_one {hd : Handle} {s : Store} {P R : Store → Prop} (fuel : Nat)
    (hs : s.ready = [hd]) (hh : Yields (handle hd) { s with ready := [] } fun _ t => P t)
    (hnext : ∀ t, P t → Yields (rounds fuel) t fun _ u => R u) (hstop : ∀ t, P t → R t) :
    Yields (rounds (fuel + 1)) s fun _ u => R u := by
  rw [rounds.eq_2]
  refine Yields.bind (Yields.of_eq (Run.run_get s) fun _ ha => ?_)
  cases ha
  refine Yields.bind (Yields.of_eq (Run.run_set _ _) fun _ _ => ?_)
  simp only [hs, List.foldlM_cons, List.foldlM_nil, bind_pure]
  refine Yields.bind (Yields.bind (hh.mono fun _ t ht => Yields.pure ?_))
  refine Yields.bind (Yields.of_eq (Run.run_get t) fun _ ha => ?_)
  cases ha
  split
  · exact Yields.pure (hstop t ht)
  · exact hnext t ht

/-- **Waiting for a batch, round by round**: from the main task's first step, the loop stops
either before the main task has an answer or in the waiting state. -/
theorem rounds_waitBatch {s : Store} {b : Nat} {bt : Batch} (hb : b < s.batches.size)
    (hbt : Store.at! s.batches b = bt) (hdone : bt.done = false) (htask : bt.task = none)
    (hplain : ∀ c ∈ bt.pending, c.Plain) (fuel : Nat) :
    Yields (rounds (fuel + 1 + 1)) { s with
      tasks := s.tasks.push { frames := [.begin (.waitBatch b)], callbacks := [.stop] }
      ready := [.step s.tasks.size .start] }
      fun _ t => (Store.at! t.tasks s.tasks.size).result = none ∨
        ∃ g, Waiting b s.tasks.size g bt t := by
  refine rounds_one _ rfl (Started.first hb hbt hdone htask) (fun t ht => ?_) fun t ht => ?_
  · refine rounds_one _ ht.ready (ht.second hplain) (fun u hu => ?_) fun u hu => .inr ⟨_, hu⟩
    exact (Waiting.rounds fuel u hu).mono fun _ _ hw => .inr ⟨_, hw⟩
  · left
    rw [ht.main_task]

/-- **Waiting for a batch settles it.** Run on a batch that has neither settled nor a settling
task, and whose pending coroutines are plain, the loop answers only once it has written one
code per pending coroutine in its place and marked the batch done. -/
theorem run_waitBatch {s : Store} {b : Nat} {bt : Batch} (hb : b < s.batches.size)
    (hbt : Store.at! s.batches b = bt) (hdone : bt.done = false) (htask : bt.task = none)
    (hplain : ∀ c ∈ bt.pending, c.Plain) :
    Yields (run (.waitBatch b)) s fun _ t => ∃ codes : List Value,
      codes.length = bt.pending.length ∧ Store.at! t.batches b = { bt with
        outcomes := record bt.outcomes codes, done := true, task := some (s.tasks.size + 1) } := by
  unfold run
  refine Yields.bind (Yields.of_eq (Run.run_modify _ _) fun _ _ => ?_)
  refine Yields.bind (Yields.of_eq (Store.run_addTask _ _) fun _ ha => ?_)
  cases ha
  refine Yields.bind (Yields.of_eq (Store.run_enqueue _ _) fun _ _ => ?_)
  rw [show maxRounds = 999998 + 1 + 1 from rfl]
  refine Yields.bind ((rounds_waitBatch (s := s) hb hbt hdone htask hplain _).mono
    fun _ t ht => ?_)
  refine Yields.bind (Yields.of_eq (Run.run_modify _ _) fun _ _ => ?_)
  refine Yields.bind (Yields.read ?_)
  rcases ht with hnone | ⟨g, hw⟩
  · -- the loop stopped with the main task still waiting
    simp only [hnone]
    exact Yields.throw _
  · split
    · rename_i v hv
      obtain ⟨v', hv'⟩ := hw.main_ok v hv
      exact Yields.pure (hw.settler_ok v' hv')
    · exact Yields.throw _
    · exact Yields.throw _

/-! ### Waiting for a batch that has settled -/

/-- Setting the entry just pushed is pushing the new one instead. -/
theorem Store.push_setIfInBounds_size {α : Type} (xs : Array α) (x y : α) :
    (xs.push y).setIfInBounds xs.size x = xs.push x := by
  ext i hi₁ hi₂
  · simp
  · simp only [Array.getElem_push]
    grind

/-- Queuing handles one by one queues them all, in order. -/
theorem Store.run_enqueueEach (hs : List Handle) : ∀ s : Store,
    (forIn hs PUnit.unit fun h _ => do
      Store.enqueue h
      pure (ForInStep.yield PUnit.unit) : Run PUnit).run.run s =
      (.ok PUnit.unit, { s with ready := s.ready ++ hs }) := by
  induction hs with
  | nil =>
    intro s
    rw [List.append_nil]
    rfl
  | cons h hs ih =>
    intro s
    have hbody : (do Store.enqueue h; pure (ForInStep.yield PUnit.unit) : Run _).run.run s =
        (.ok (.yield PUnit.unit), { s with ready := s.ready ++ [h] }) := rfl
    rw [List.forIn_cons, Run.run_bind_of_eq hbody]
    dsimp only
    rw [ih]
    simp

/-- A task waiting for a batch that has settled finishes on its first step, with no value, and
queues what waits for it. -/
theorem stepTask_waitBatch_done {t : Store} {b main : Nat} {callbacks : List Handle}
    (hmain : Store.at! t.tasks main = { frames := [.begin (.waitBatch b)], callbacks })
    (hdone : (Store.at! t.batches b).done = true) :
    (stepTask main .start).run.run t = (.ok (), { t with
      tasks := t.tasks.setIfInBounds main { frames := [], result := some (.ok .none), callbacks }
      ready := t.ready ++ callbacks }) := by
  unfold stepTask
  rw [Run.run_bind_of_eq (Store.run_task _ _), hmain]
  simp only [Option.isSome_none, Bool.false_eq_true, if_false]
  rw [show Run.depth = 99998 + 1 + 1 from rfl, advance.eq_6 _ .start _ _ _ (fun _ h => by cases h),
    begin.eq_7, Run.run_bind_of_eq (Store.run_batch _ _)]
  simp only [hdone, if_true]
  rw [show (99998 : Nat) = 99997 + 1 from rfl, advance.eq_2]
  unfold finish
  rw [Run.run_bind_of_eq (Store.run_task _ _), hmain, Run.run_bind_of_eq (Store.run_setTask _ _ _),
    Run.run_bind_of_eq (Store.run_enqueueEach _ _)]
  rfl

/-- A step handle runs the step and never stops the loop. -/
theorem run_handle_step {tid : Nat} {input : Resume} {t u : Store}
    (h : (stepTask tid input).run.run t = (.ok (), u)) :
    (handle (.step tid input)).run.run t = (.ok false, u) := by
  simp only [handle]
  rw [Run.run_bind_of_eq h]
  rfl

theorem run_handle_stop (t : Store) : (handle .stop).run.run t = (.ok true, t) := rfl

/-- A round with one handle queued runs it, and the loop goes on only when the handle neither
stopped it nor left the queue empty. -/
theorem run_rounds_one {hd : Handle} {s t : Store} {stop : Bool} (fuel : Nat)
    (hs : s.ready = [hd]) (hh : (handle hd).run.run { s with ready := [] } = (.ok stop, t)) :
    (rounds (fuel + 1)).run.run s =
      if stop || t.ready.isEmpty then (.ok (), t) else (rounds fuel).run.run t := by
  have hbody : (do let stops ← handle hd; pure (false || stops) : Run Bool).run.run
      { s with ready := [] } = (.ok stop, t) := by
    rw [Run.run_bind_of_eq hh, Bool.false_or]
    rfl
  rw [rounds.eq_2, Run.run_bind_of_eq (Run.run_get s), Run.run_bind_of_eq (Run.run_set _ _)]
  simp only [hs, List.foldlM_cons, List.foldlM_nil, bind_pure]
  rw [Run.run_bind_of_eq hbody, Run.run_bind_of_eq (Run.run_get t)]
  split <;> rfl

/-- **Waiting for a batch that has settled** answers at once: the loop's one task finishes on
its first step, and of the whole run the store keeps only that finished task. -/
theorem run_waitBatch_done {s : Store} {b : Nat} (hdone : (Store.at! s.batches b).done = true) :
    (run (.waitBatch b)).run.run s = (.ok .none, { s with
      tasks := s.tasks.push { frames := [], result := some (.ok .none), callbacks := [.stop] }
      ready := [] }) := by
  unfold run
  rw [Run.run_bind_of_eq (Run.run_modify _ _), Run.run_bind_of_eq (Store.run_addTask _ _),
    Run.run_bind_of_eq (Store.run_enqueue _ _)]
  dsimp only
  -- the first round finishes the main task, the second handles its stop
  have hstep := stepTask_waitBatch_done (t := { s with
    tasks := s.tasks.push { frames := [.begin (.waitBatch b)], callbacks := [.stop] }
    ready := [] }) (Store.at!_push_size _ _) hdone
  have hrounds := run_rounds_one (s := { s with
    tasks := s.tasks.push { frames := [.begin (.waitBatch b)], callbacks := [.stop] }
    ready := [.step s.tasks.size .start] }) (999998 + 1) rfl (run_handle_step hstep)
  simp only [List.nil_append, List.isEmpty_cons, Bool.false_or, Bool.false_eq_true, if_false] at hrounds
  rw [run_rounds_one 999998 rfl (run_handle_stop _)] at hrounds
  rw [List.nil_append, show maxRounds = 999998 + 1 + 1 from rfl, Run.run_bind_of_eq hrounds,
    Run.run_bind_of_eq (Run.run_modify _ _), Run.run_bind_of_eq (Store.run_task _ _)]
  dsimp only
  rw [Store.push_setIfInBounds_size, Store.at!_push_size]
  rfl

end Loop

namespace Batch

/-- **Waiting for a batch that has settled answers its errors at once**, and leaves the store as
it was but for the loop's one finished task: no validator runs again. -/
theorem wait_done {s : Store} {b : Nat} (hdone : (Store.at! s.batches b).done = true) :
    (wait b).run.run s = (.ok (errors (Store.at! s.batches b)), { s with
      tasks := s.tasks.push { frames := [], result := some (.ok .none), callbacks := [.stop] }
      ready := [] }) := by
  unfold wait
  rw [Run.run_bind_of_eq (Loop.run_waitBatch_done hdone), Run.run_bind_of_eq (Store.run_batch _ _)]
  rfl

/-- **Waiting for a batch that has not settled settles it**: when the wait answers, one code
per pending coroutine stands in place of its outcome, in field order, the batch is done, and
the answer is its errors. -/
theorem wait_settles {s : Store} {b : Nat} {bt : Batch} (hb : b < s.batches.size)
    (hbt : Store.at! s.batches b = bt) (hdone : bt.done = false) (htask : bt.task = none)
    (hplain : ∀ c ∈ bt.pending, c.Plain) :
    Yields (wait b) s fun errs t => ∃ codes : List Value, codes.length = bt.pending.length ∧
      Store.at! t.batches b = { bt with
        outcomes := Loop.record bt.outcomes codes, done := true, task := some (s.tasks.size + 1) } ∧
      errs = errors (Store.at! t.batches b) := by
  unfold wait
  refine Yields.bind ((Loop.run_waitBatch hb hbt hdone htask hplain).mono fun _ t ht => ?_)
  obtain ⟨codes, hlen, hbatch⟩ := ht
  exact Yields.bind (Yields.read (Yields.pure ⟨codes, hlen, hbatch, rfl⟩))

end Batch

end Schematic
