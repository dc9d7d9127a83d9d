import Mathlib
import Schematic.Proofs.Run
import Schematic.Validation

/-!
# Awaiting an answer

A check answers at once, or hands back an awaitable that finishes the same work once the values
it waits for have arrived. Awaiting is read here as a relation, so that one statement can speak
of both paths: an answer given at once is its own value.

* `Outcome.Settles s o x t`: awaited from `s`, the outcome `o` gives `x` and leaves `t`;
* `Run.Gives s node v ctx path x t`: the check at `node`, run on `v` and then awaited, gives `x`;
* **`Outcome.Settles.chain`**: awaiting a chain awaits its source, runs its step on the value
  the source gave, and awaits what the step answers. Every later statement about a pending
  union, array or custom rule comes from this one.
-/

namespace Schematic

/-- `Settles s o x t`: the outcome `o`, awaited from `s` with as much fuel as it takes, gives `x`
and leaves `t`. -/
inductive Outcome.Settles : Store → Outcome → Value → Store → Prop
  | now {s : Store} {v : Value} : Outcome.Settles s (.now v) v s
  | later {s t : Store} {c : Coro} {x : Value} {n : Nat}
      (h : (Loop.await n c).run.run s = (.ok x, t)) : Outcome.Settles s (.later c) x t

namespace Outcome.Settles

variable {s t u : Store} {x y : Value}

/-- An answer given at once is its own value and awaits nothing. -/
theorem now_iff {v : Value} : (Outcome.now v).Settles s x t ↔ x = v ∧ t = s := by
  constructor
  · rintro ⟨⟩
    exact ⟨rfl, rfl⟩
  · rintro ⟨rfl, rfl⟩
    exact .now

/-- An awaitable gives what awaiting it with enough fuel gives. -/
theorem later_iff {c : Coro} :
    (Outcome.later c).Settles s x t ↔ ∃ n, (Loop.await n c).run.run s = (.ok x, t) := by
  constructor
  · intro h
    cases h with
    | later h => exact ⟨_, h⟩
  · rintro ⟨n, h⟩
    exact .later h

/-- A settled coroutine gives its value at once. -/
theorem settled {v : Value} (h : (Outcome.later (.settled v)).Settles s x t) : x = v ∧ t = s := by
  obtain ⟨n, h⟩ := later_iff.mp h
  cases n with
  | zero => cases h
  | succ n =>
    rw [Loop.await] at h
    cases h
    exact ⟨rfl, rfl⟩

/-- **Awaiting a chain.** The source is awaited first; its value goes to the step, and what the
step answers is awaited in turn. -/
theorem chain {c : Coro} {k : Step} (h : (Outcome.later (.chain c k)).Settles s y u) :
    ∃ x t, (Outcome.later c).Settles s x t ∧
      ∃ o t', (Run.resume Run.depth k x).run.run t = (.ok o, t') ∧ o.Settles t' y u := by
  obtain ⟨n, h⟩ := later_iff.mp h
  cases n with
  | zero => cases h
  | succ n =>
    rw [Loop.await] at h
    obtain ⟨x, t, hx, h⟩ := Run.ok_of_bind h
    obtain ⟨o, t', ho, h⟩ := Run.ok_of_bind h
    refine ⟨x, t, .later hx, o, t', ho, ?_⟩
    cases o with
    | now y' =>
      cases h
      exact .now
    | later c' => exact .later h

end Outcome.Settles

namespace Run

/-- A check run with no depth left raises the recursion limit. -/
theorem check_zero {s t : Store} {node : Nat} {v : Value} {ctx : Option Nat} {path : String}
    {o : Outcome} (h : (Run.check 0 node v ctx path).run.run s = (.ok o, t)) : False := by
  rw [Run.check.eq_def] at h
  cases h

/-- `Gives s node v ctx path x t`: the check at `node`, run on `v` for `path` from `s` at some
depth and then awaited, gives `x` and leaves `t`. -/
def Gives (s : Store) (node : Nat) (v : Value) (ctx : Option Nat) (path : String) (x : Value)
    (t : Store) : Prop :=
  ∃ d o u, (Run.check d node v ctx path).run.run s = (.ok o, u) ∧ o.Settles u x t

/-- A check that answers at once gives its answer. -/
theorem Gives.of_now {s t : Store} {node : Nat} {v : Value} {ctx : Option Nat} {path : String}
    {d : Nat} {x : Value} (h : (Run.check d node v ctx path).run.run s = (.ok (.now x), t)) :
    Gives s node v ctx path x t :=
  ⟨d, _, t, h, .now⟩

/-- A check that answers later gives what its awaitable gives. -/
theorem Gives.of_later {s t u : Store} {node : Nat} {v : Value} {ctx : Option Nat}
    {path : String} {d : Nat} {c : Coro} {x : Value}
    (h : (Run.check d node v ctx path).run.run s = (.ok (.later c), t))
    (hc : (Outcome.later c).Settles t x u) : Gives s node v ctx path x u :=
  ⟨d, _, t, h, hc⟩

end Run

end Schematic
