import Mathlib
import Schematic.Check.Rule

/-!
# Running store operations

A `Run` computation is run from a store with `m.run.run s`, which gives its outcome and the
store it leaves. This module says how each operation of the monad and each accessor of the
store runs, so that proofs about the validation functions can follow a computation step by step
instead of unfolding the monad:

* `Run.run_bind`, `Run.run_map` and `Run.run_tryCatch` split a computation at its first step;
* `Store.at!_setIfInBounds` and `Store.at!_push` say what an update or an addition leaves at
  every handle.
-/

namespace Schematic

namespace Run

variable {α β : Type}

@[simp] theorem run_pure (a : α) (s : Store) : (pure a : Run α).run.run s = (.ok a, s) := rfl

@[simp] theorem run_throw (e : Fault) (s : Store) :
    (throw e : Run α).run.run s = (.error e, s) := rfl

@[simp] theorem run_get (s : Store) : (get : Run Store).run.run s = (.ok s, s) := rfl

@[simp] theorem run_set (s t : Store) : (set t : Run Unit).run.run s = (.ok (), t) := rfl

@[simp] theorem run_modify (f : Store → Store) (s : Store) :
    (modify f : Run Unit).run.run s = (.ok (), f s) := rfl

@[simp] theorem run_modifyGet (f : Store → α × Store) (s : Store) :
    (modifyGet f : Run α).run.run s = (.ok (f s).1, (f s).2) := rfl

/-- A bound computation runs its first part, and its continuation only if that succeeded. -/
theorem run_bind (x : Run α) (f : α → Run β) (s : Store) :
    (x >>= f).run.run s = match x.run.run s with
      | (.ok a, s') => (f a).run.run s'
      | (.error e, s') => (.error e, s') := by
  simp only [ExceptT.run_bind, StateT.run_bind]
  rcases x.run.run s with ⟨r, s'⟩
  cases r <;> rfl

theorem run_map (f : α → β) (x : Run α) (s : Store) :
    (f <$> x).run.run s = match x.run.run s with
      | (.ok a, s') => (.ok (f a), s')
      | (.error e, s') => (.error e, s') := by
  simp only [ExceptT.run_map, StateT.run_map]
  rcases x.run.run s with ⟨r, s'⟩
  cases r <;> rfl

/-- A handler runs on the store the failed computation left. -/
theorem run_tryCatch (x : Run α) (h : Fault → Run α) (s : Store) :
    (tryCatch x h).run.run s = match x.run.run s with
      | (.ok a, s') => (.ok a, s')
      | (.error e, s') => (h e).run.run s' := by
  show (ExceptT.tryCatch x h).run.run s = _
  simp only [ExceptT.tryCatch, ExceptT.run_mk, StateT.run_bind]
  generalize hx : StateT.run x s = p
  have hrun : x.run.run s = p := hx
  rw [hrun]
  rcases p with ⟨r, s'⟩
  cases r <;> rfl

/-- A block that answered had its first step answer. -/
theorem ok_of_bind {x : Run α} {f : α → Run β} {s u : Store} {b : β}
    (h : (x >>= f).run.run s = (.ok b, u)) :
    ∃ a t, x.run.run s = (.ok a, t) ∧ (f a).run.run t = (.ok b, u) := by
  rw [run_bind] at h
  rcases hx : x.run.run s with ⟨r, t⟩
  rw [hx] at h
  cases r with
  | ok a => exact ⟨a, t, rfl, h⟩
  | error e => cases h

/-- A first step that answers hands its answer and store to the rest. -/
theorem run_bind_of_ok {x : Run α} {f : α → Run β} {s : Store} {a : α}
    (h : (x.run.run s).1 = .ok a) : (x >>= f).run.run s = (f a).run.run (x.run.run s).2 := by
  rw [run_bind]
  rcases hx : x.run.run s with ⟨r, t⟩
  rw [hx] at h
  cases h
  rfl

/-- The same, for a first step whose whole outcome is known. -/
theorem run_bind_of_eq {x : Run α} {f : α → Run β} {s t : Store} {a : α}
    (h : x.run.run s = (.ok a, t)) : (x >>= f).run.run s = (f a).run.run t := by
  rw [run_bind, h]

theorem ok_of_map {x : Run α} {f : α → β} {s u : Store} {b : β}
    (h : (f <$> x).run.run s = (.ok b, u)) : ∃ a, x.run.run s = (.ok a, u) ∧ f a = b := by
  rw [run_map] at h
  rcases hx : x.run.run s with ⟨r, t⟩
  rw [hx] at h
  cases r with
  | ok a =>
    cases h
    exact ⟨a, rfl, rfl⟩
  | error e => cases h

/-- A lifted answer fails exactly with its fault and leaves the store alone. -/
@[simp] theorem run_lift {α : Type} (r : Except Fault α) (s : Store) :
    (Rule.lift r).run.run s = (r, s) := by
  cases r <;> rfl

end Run

namespace Store

@[simp] theorem at!_setIfInBounds {α : Type} [Inhabited α] (xs : Array α) (i j : Nat) (x : α) :
    at! (xs.setIfInBounds i x) j = if i = j ∧ i < xs.size then x else at! xs j := by
  unfold at!
  by_cases hij : i = j
  · subst hij
    by_cases hi : i < xs.size
    · simp [hi]
    · simp [hi, Array.setIfInBounds]
  · simp [hij, Array.getElem?_setIfInBounds_ne hij]

theorem at!_push {α : Type} [Inhabited α] (xs : Array α) (x : α) (j : Nat) :
    at! (xs.push x) j = if j < xs.size then at! xs j else if j = xs.size then x else default := by
  unfold at!
  rw [Array.getElem?_push]
  by_cases hj : j < xs.size
  · simp [hj, Nat.ne_of_lt hj]
  · by_cases he : j = xs.size
    · simp [he]
    · simp [hj, he]

/-- Adding leaves every earlier handle as it was. -/
@[simp] theorem at!_push_of_lt {α : Type} [Inhabited α] (xs : Array α) (x : α) {j : Nat} (hj : j < xs.size) :
    at! (xs.push x) j = at! xs j := by
  simp [at!_push, hj]

@[simp] theorem at!_push_size {α : Type} [Inhabited α] (xs : Array α) (x : α) : at! (xs.push x) xs.size = x := by
  simp [at!_push]

theorem at!_of_getElem? {α : Type} [Inhabited α] {xs : Array α} {i : Nat} {x : α}
    (h : xs[i]? = some x) : at! xs i = x := by
  simp [at!, h]

@[simp] theorem run_read {α : Type} (f : Store → α) (s : Store) : (read f).run.run s = (.ok (f s), s) := rfl

@[simp] theorem run_change (f : Store → Store) (s : Store) :
    (change f).run.run s = (.ok (), f s) := rfl

@[simp] theorem run_schema (id : Nat) (s : Store) :
    (schema id).run.run s = (.ok (at! s.schemas id), s) := rfl

@[simp] theorem run_context (id : Nat) (s : Store) :
    (context id).run.run s = (.ok (at! s.contexts id), s) := rfl

@[simp] theorem run_check (id : Nat) (s : Store) :
    (check id).run.run s = (.ok (at! s.checks id), s) := rfl

@[simp] theorem run_lazyTag (id : Nat) (s : Store) :
    (lazyTag id).run.run s = (.ok (at! s.lazies id), s) := rfl

@[simp] theorem run_union (id : Nat) (s : Store) :
    (union id).run.run s = (.ok (at! s.unions id), s) := rfl

@[simp] theorem run_array (id : Nat) (s : Store) :
    (array id).run.run s = (.ok (at! s.arrays id), s) := rfl

@[simp] theorem run_setContext (id : Nat) (x : Context) (s : Store) :
    (setContext id x).run.run s =
      (.ok (), { s with contexts := s.contexts.setIfInBounds id x }) := rfl

@[simp] theorem run_setCheck (id : Nat) (x : Check) (s : Store) :
    (setCheck id x).run.run s = (.ok (), { s with checks := s.checks.setIfInBounds id x }) :=
  rfl

@[simp] theorem run_setLazy (id : Nat) (x : LazyTag) (s : Store) :
    (setLazy id x).run.run s = (.ok (), { s with lazies := s.lazies.setIfInBounds id x }) :=
  rfl

@[simp] theorem run_addCheck (x : Check) (s : Store) :
    (addCheck x).run.run s = (.ok s.checks.size, { s with checks := s.checks.push x }) := rfl

@[simp] theorem run_addContext (x : Context) (s : Store) :
    (addContext x).run.run s =
      (.ok s.contexts.size, { s with contexts := s.contexts.push x }) := rfl

@[simp] theorem run_naming (s : Store) : naming.run.run s = (.ok (namingIn s), s) := rfl

@[simp] theorem run_plain (v : Value) (s : Store) :
    (plain v).run.run s = (.ok (v.plain (namingIn s)), s) := rfl

@[simp] theorem run_schemaName (id : Nat) (s : Store) :
    (schemaName id).run.run s = (.ok (schemaNameIn s id), s) := rfl

end Store

end Schematic
