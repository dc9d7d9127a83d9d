import Mathlib
import Schematic.Proofs.Settling
import Schematic.Registry

/-!
# Registries along their parent chains

A registry binds keys to tags and asks its parent for the keys it does not bind. This module
follows the registries of a store through every sequence of calls a session can make on them:
creating a registry under one that exists, registering a key and unregistering one.

* `Registry.Nearest`: the binding found by walking up from a registry, stated as a relation;
  `Registry.lookupWith_full_iff` proves the fuelled walk of `Registry.lookup` equal to it, given
  that parents are made before their children;
* `Registry.Rebinds`: all that a register or unregister call may change, and
  `Registry.Rebinds.lookupWith_eq`, the frame rule it gives: a lookup whose chain does not pass
  through the changed registry is unchanged;
* `Registry.WellFormed`: the invariant every reachable store keeps, with one lemma per call;
* **`Registry.reachable_behaves`**: in every reachable store, lookups, refusals, the frame rule,
  `Registry.resolve` and `Registry.isPrimitive` behave as `Registry.Behaves` lists.

Unregistering reads a registry's own bindings before it hashes the key, so a registry with no
bindings of its own accepts a key that cannot be hashed (`unregister_accepts_list`).
-/

namespace Schematic

namespace Store

@[simp] theorem run_registry (id : Nat) (s : Store) :
    (registry id).run.run s = (.ok (at! s.registries id), s) := rfl

@[simp] theorem run_setRegistry (id : Nat) (x : Registry) (s : Store) :
    (setRegistry id x).run.run s =
      (.ok (), { s with registries := s.registries.setIfInBounds id x }) := rfl

@[simp] theorem run_addRegistry (x : Registry) (s : Store) :
    (addRegistry x).run.run s =
      (.ok s.registries.size, { s with registries := s.registries.push x }) := rfl

@[simp] theorem run_shown (v : Value) (s : Store) :
    (shown v).run.run s = (.ok (v.shown (namingIn s)), s) := rfl

end Store

namespace Registry

/-- Every registry's parent was made before it, so has a smaller handle: the chain of parents
from any registry ends. -/
def ParentsBelow (s : Store) : Prop :=
  ∀ i p, (Store.at! s.registries i).parent = some p → p < i

/-- `Nearest s key r t`: walking from registry `r` up through its parents, the first registry
that binds a key equal to `key` binds it to `t`. -/
inductive Nearest (s : Store) (key : Value) : Nat → Tag → Prop
  | here {r : Nat} {t : Tag} (h : own (Store.at! s.registries r) key = some t) :
      Nearest s key r t
  | up {r p : Nat} {t : Tag} (h : own (Store.at! s.registries r) key = none)
      (hp : (Store.at! s.registries r).parent = some p) (hn : Nearest s key p t) :
      Nearest s key r t

/-- `OnChain s q r`: registry `r` is `q` or one of its parents, at any height. -/
inductive OnChain (s : Store) : Nat → Nat → Prop
  | self (q : Nat) : OnChain s q q
  | up {q p r : Nat} (hp : (Store.at! s.registries q).parent = some p) (h : OnChain s p r) :
      OnChain s q r

/-- One call on registries, as a session makes it: a registry made under one that exists or
under none, a key bound, a binding removed. A call that raises is a call too. -/
inductive Call : Store → Store → Prop
  | create {s : Store} {p : Option Nat} (hp : ∀ q, p = some q → q < s.registries.size) :
      Call s ((Store.addRegistry { parent := p }).run.run s).2
  | register (s : Store) (id : Nat) (key tag : Value) : Call s ((register id key tag).run.run s).2
  | unregister (s : Store) (id : Nat) (key : Value) : Call s ((unregister id key).run.run s).2

/-! ### Lookups walk the chain -/

variable {s : Store} {key : Value}

/-- A registry that binds the key answers with its own binding. -/
theorem lookupWith_own {r f : Nat} {t : Tag} (h : own (Store.at! s.registries r) key = some t) :
    lookupWith s key r (f + 1) = some t := by
  simp [lookupWith, h]

/-- A registry that does not bind the key asks its parent. -/
theorem lookupWith_parent {r p f : Nat} (h : own (Store.at! s.registries r) key = none)
    (hp : (Store.at! s.registries r).parent = some p) :
    lookupWith s key r (f + 1) = lookupWith s key p f := by
  simp [lookupWith, h, hp]

/-- A registry with no parent that does not bind the key answers none. -/
theorem lookupWith_root {r f : Nat} (h : own (Store.at! s.registries r) key = none)
    (hp : (Store.at! s.registries r).parent = none) : lookupWith s key r (f + 1) = none := by
  simp [lookupWith, h, hp]

/-- With parents made before their children, fuel above a registry's handle is enough to walk
its whole chain: the walk finds exactly the nearest binding. -/
theorem lookupWith_eq_some_iff (hs : ParentsBelow s) {t : Tag} :
    ∀ {f r : Nat}, r < f → (lookupWith s key r f = some t ↔ Nearest s key r t)
  | 0, _, hr => absurd hr (Nat.not_lt_zero _)
  | f + 1, r, hr => by
    cases hown : own (Store.at! s.registries r) key with
    | some t' =>
      rw [lookupWith_own hown]
      constructor
      · intro h
        cases Option.some.inj h
        exact .here hown
      · intro hn
        cases hn with
        | here h => exact hown.symm.trans h
        | up h => simp [hown] at h
    | none =>
      cases hpar : (Store.at! s.registries r).parent with
      | none =>
        rw [lookupWith_root hown hpar]
        simp only [reduceCtorEq, false_iff]
        intro hn
        cases hn with
        | here h => simp [hown] at h
        | up _ hp => simp [hpar] at hp
      | some p =>
        -- the parent's handle is below this one's, so the fuel left still covers its chain
        rw [lookupWith_parent hown hpar, lookupWith_eq_some_iff hs (by have := hs r p hpar; omega)]
        constructor
        · exact .up hown hpar
        · intro hn
          cases hn with
          | here h => simp [hown] at h
          | up _ hp hn => rwa [Option.some.inj (hpar.symm.trans hp)]

/-- The registry read past the last one: no parent, no bindings. -/
theorem default_eq : (default : Registry) = ⟨none, [], false⟩ := rfl

theorem own_default : own default key = none := by
  simp [own, default_eq]

/-- Keys that cannot be hashed are bound nowhere. -/
theorem own_of_unhashable {r : Registry} (h : key.hashable = false) : own r key = none := by
  simp [own, h]

theorem not_nearest_of_unhashable (h : key.hashable = false) {r : Nat} {t : Tag} :
    ¬ Nearest s key r t := by
  intro hn
  induction hn with
  | here h' => simp [own_of_unhashable h] at h'
  | up _ _ _ ih => exact ih

theorem not_nearest_of_size_le {r : Nat} {t : Tag} (hr : s.registries.size ≤ r) :
    ¬ Nearest s key r t := by
  intro hn
  cases hn with
  | here h => simp [Store.at!_of_size_le hr, own_default] at h
  | up _ hp => simp [Store.at!_of_size_le hr, default_eq] at hp

/-- With fuel one past the number of registries, as a lookup gives it, the walk finds exactly
the nearest binding from any handle. -/
theorem lookupWith_full_iff (hs : ParentsBelow s) (r : Nat) {t : Tag} :
    lookupWith s key r (s.registries.size + 1) = some t ↔ Nearest s key r t := by
  by_cases hr : r < s.registries.size + 1
  · exact lookupWith_eq_some_iff hs hr
  · have hle : s.registries.size ≤ r := by omega
    have hroot : lookupWith s key r (s.registries.size + 1) = none :=
      lookupWith_root (by rw [Store.at!_of_size_le hle, own_default])
        (by rw [Store.at!_of_size_le hle, default_eq])
    simp only [hroot, reduceCtorEq, false_iff]
    exact not_nearest_of_size_le hle

theorem lookupWith_full_eq_none (hs : ParentsBelow s) (r : Nat) :
    lookupWith s key r (s.registries.size + 1) = none ↔ ∀ t, ¬ Nearest s key r t := by
  simp only [Option.eq_none_iff_forall_ne_some, ne_eq, lookupWith_full_iff hs]

theorem run_lookup (r : Nat) (key : Value) :
    (lookup r key).run.run s = (.ok (lookupWith s key r (s.registries.size + 1)), s) := rfl

/-! ### Reading declarations -/

theorem resolve_tag (r : Nat) (t : Tag) : (resolve r (.tag t)).run.run s = (.ok (.tag t), s) :=
  rfl

/-- A declaration that is not a tag reads as the tag its lookup finds. -/
theorem resolve_of_lookup {r : Nat} {decl : Value} {t : Tag} (hd : ∀ u, decl ≠ .tag u)
    (h : lookupWith s decl r (s.registries.size + 1) = some t) :
    (resolve r decl).run.run s = (.ok (.tag t), s) := by
  rw [resolve.eq_def]
  split
  · exact absurd rfl (hd _)
  rw [Run.run_bind_of_eq (run_lookup r decl), h]
  rfl

/-- Unbound text is an unknown type. -/
theorem resolve_str_of_unbound {r : Nat} {name : String}
    (h : lookupWith s (.str name) r (s.registries.size + 1) = none) :
    (resolve r (.str name)).run.run s = (.error (.unknownType name), s) := by
  rw [resolve.eq_def]
  dsimp only
  rw [Run.run_bind_of_eq (run_lookup r _), h]
  rfl

/-- Anything else that is unbound comes back unchanged. -/
theorem resolve_of_unbound {r : Nat} {decl : Value} (hd : ∀ u, decl ≠ .tag u)
    (hstr : ∀ n, decl ≠ .str n) (h : lookupWith s decl r (s.registries.size + 1) = none) :
    (resolve r decl).run.run s = (.ok decl, s) := by
  rw [resolve.eq_def]
  split
  · exact absurd rfl (hd _)
  rw [Run.run_bind_of_eq (run_lookup r _), h]
  dsimp only
  split
  · exact absurd rfl (hstr _)
  · rfl

/-- A value is primitive when it is not text and is bound along the chain. -/
theorem isPrimitive_spec (hs : ParentsBelow s) (r : Nat) (v : Value) :
    ∃ b, (isPrimitive r v).run.run s = (.ok b, s) ∧
      (b = true ↔ (∀ n, v ≠ .str n) ∧ ∃ t, Nearest s v r t) := by
  cases v
  case str n => exact ⟨false, rfl, by simp⟩
  all_goals
    refine ⟨_, rfl, ?_⟩
    simp [Option.isSome_iff_exists, lookupWith_full_iff hs]

/-! ### What a change to one registry may touch -/

/-- A change to registry `id`: its bindings may change, and nothing else. Parents, frozen flags,
the other registries and the number of registries stay as they were. -/
structure Rebinds (s : Store) (id : Nat) (s' : Store) : Prop where
  size : s'.registries.size = s.registries.size
  parent : ∀ i, (Store.at! s'.registries i).parent = (Store.at! s.registries i).parent
  frozen : ∀ i, (Store.at! s'.registries i).frozen = (Store.at! s.registries i).frozen
  other : ∀ i, i ≠ id → Store.at! s'.registries i = Store.at! s.registries i

theorem Rebinds.refl (s : Store) (id : Nat) : Rebinds s id s :=
  ⟨rfl, fun _ => rfl, fun _ => rfl, fun _ _ => rfl⟩

/-- Writing a registry that keeps the parent and the frozen flag of the one it replaces. -/
theorem rebinds_set (s : Store) (id : Nat) (x : Registry)
    (hp : x.parent = (Store.at! s.registries id).parent)
    (hf : x.frozen = (Store.at! s.registries id).frozen) :
    Rebinds s id { s with registries := s.registries.setIfInBounds id x } where
  size := by simp
  parent i := by
    simp only [Store.at!_setIfInBounds]
    split_ifs with h
    · rw [hp, h.1]
    · rfl
  frozen i := by
    simp only [Store.at!_setIfInBounds]
    split_ifs with h
    · rw [hf, h.1]
    · rfl
  other i hi := by simp [Store.at!_setIfInBounds, Ne.symm hi]

/-! ### Register and unregister -/

section Changes

variable (s : Store) {id : Nat}

theorem register_of_frozen (key tag : Value) (h : (Store.at! s.registries id).frozen = true) :
    (register id key tag).run.run s = (.error .frozenRegister, s) := by
  rw [register, Run.run_bind_of_eq (Store.run_registry id s)]
  simp only [h, if_true]
  rfl

theorem unregister_of_frozen (key : Value) (h : (Store.at! s.registries id).frozen = true) :
    (unregister id key).run.run s = (.error .frozenUnregister, s) := by
  rw [unregister, Run.run_bind_of_eq (Store.run_registry id s)]
  simp only [h, if_true]
  rfl

/-- A value that is not a tag is refused, shown as the store names it. -/
theorem register_of_not_tag (key tag : Value) (h : (Store.at! s.registries id).frozen = false)
    (ht : ∀ t, tag ≠ .tag t) :
    (register id key tag).run.run s = (.error (.notATag (tag.shown s.namingIn)), s) := by
  rw [register, Run.run_bind_of_eq (Store.run_registry id s)]
  -- simp discharges the side condition of the match's catch-all branch with `ht`
  simp only [h, Bool.false_eq_true, if_false]
  rw [Run.run_bind_of_eq (Store.run_shown _ _)]
  rfl

theorem register_of_unhashable {key : Value} {c : String} (t : Tag)
    (h : (Store.at! s.registries id).frozen = false) (hc : key.unhashable? = some c) :
    (register id key (.tag t)).run.run s = (.error (.unhashable c), s) := by
  rw [register, Run.run_bind_of_eq (Store.run_registry id s)]
  simp only [h, Bool.false_eq_true, if_false, hc]
  rfl

/-- A registry with no bindings of its own has nothing to remove: any key is accepted, also one
that cannot be hashed, and nothing changes. -/
theorem unregister_of_bindings_nil (key : Value) (h : (Store.at! s.registries id).frozen = false)
    (hb : (Store.at! s.registries id).bindings = []) :
    (unregister id key).run.run s = (.ok (), s) := by
  rw [unregister, Run.run_bind_of_eq (Store.run_registry id s)]
  simp only [h, Bool.false_eq_true, if_false, hb, List.isEmpty_nil, if_true]
  rfl

theorem unregister_of_unhashable {key : Value} {c : String}
    (h : (Store.at! s.registries id).frozen = false)
    (hb : (Store.at! s.registries id).bindings ≠ [])
    (hc : key.unhashable? = some c) :
    (unregister id key).run.run s = (.error (.unhashable c), s) := by
  rw [unregister, Run.run_bind_of_eq (Store.run_registry id s)]
  simp only [h, Bool.false_eq_true, if_false, List.isEmpty_iff, hb, hc]
  rfl

theorem register_rebinds (key tag : Value) : Rebinds s id ((register id key tag).run.run s).2 := by
  rw [register, Run.run_bind_of_eq (Store.run_registry id s)]
  by_cases h : (Store.at! s.registries id).frozen = true
  · simp only [h, if_true]
    exact Rebinds.refl s id
  · simp only [h, Bool.false_eq_true, if_false]
    split
    · split
      · exact Rebinds.refl s id
      · exact rebinds_set s id _ rfl (by simpa using h)
    · rw [Run.run_bind_of_eq (Store.run_shown _ _)]
      exact Rebinds.refl s id

theorem unregister_rebinds (key : Value) : Rebinds s id ((unregister id key).run.run s).2 := by
  rw [unregister, Run.run_bind_of_eq (Store.run_registry id s)]
  by_cases h : (Store.at! s.registries id).frozen = true
  · simp only [h, if_true]
    exact Rebinds.refl s id
  · simp only [h, Bool.false_eq_true, if_false]
    split
    · exact Rebinds.refl s id
    · split
      · exact Rebinds.refl s id
      · exact rebinds_set s id _ rfl (by simpa using h)

end Changes

/-! ### Lookups away from a changed registry -/

/-- A change to registry `r` leaves every walk that does not pass through `r` as it was. -/
theorem Rebinds.lookupWith_eq {s' : Store} {r : Nat} (h : Rebinds s r s') :
    ∀ {f q : Nat}, ¬ OnChain s q r → lookupWith s' key q f = lookupWith s key q f
  | 0, _, _ => rfl
  | f + 1, q, hq => by
    have hat : Store.at! s'.registries q = Store.at! s.registries q :=
      h.other q fun e => hq (e ▸ .self q)
    cases hown : own (Store.at! s.registries q) key with
    | some t => rw [lookupWith_own (hat ▸ hown), lookupWith_own hown]
    | none =>
      cases hpar : (Store.at! s.registries q).parent with
      | none => rw [lookupWith_root (hat ▸ hown) (hat ▸ hpar), lookupWith_root hown hpar]
      | some p =>
        rw [lookupWith_parent (hat ▸ hown) (hat ▸ hpar), lookupWith_parent hown hpar,
          h.lookupWith_eq fun hc => hq (.up hpar hc)]

theorem Rebinds.lookup_eq {s' : Store} {r q : Nat} (h : Rebinds s r s') (hq : ¬ OnChain s q r) :
    ((lookup q key).run.run s').1 = ((lookup q key).run.run s).1 := by
  show Except.ok (lookupWith s' key q (s'.registries.size + 1)) =
    Except.ok (lookupWith s key q (s.registries.size + 1))
  rw [h.size, h.lookupWith_eq hq]

/-! ### The invariant of reachable stores -/

/-- What every store reached by registry calls keeps: parents come before their children, and
the built-in registry is the one frozen registry. -/
structure WellFormed (s : Store) : Prop where
  parents : ParentsBelow s
  frozen : ∀ i, (Store.at! s.registries i).frozen = true ↔ i = builtins

theorem wellFormed_initial : WellFormed Store.initial where
  parents i p h := by
    rcases i with _ | i
    · simp [Store.initial, Store.at!, builtin] at h
    · simp [Store.initial, Store.at!, default_eq] at h
  frozen i := by
    rcases i with _ | i
    · simp [Store.initial, Store.at!, builtin, builtins]
    · simp [Store.initial, Store.at!, default_eq, builtins]

theorem WellFormed.rebinds {s s' : Store} {id : Nat} (hs : WellFormed s) (h : Rebinds s id s') :
    WellFormed s' where
  parents i p hp := hs.parents i p ((h.parent i).symm.trans hp)
  frozen i := by rw [h.frozen i]; exact hs.frozen i

/-- There is always a registry: the built-in one, at the first handle. -/
theorem WellFormed.size_pos {s : Store} (hs : WellFormed s) : 0 < s.registries.size := by
  by_contra h0
  have hf := (hs.frozen builtins).2 rfl
  rw [Store.at!_of_size_le (by omega), default_eq] at hf
  cases hf

/-- A new registry under one that exists keeps parents before children, and is not frozen. -/
theorem WellFormed.create {s : Store} {p : Option Nat} (hs : WellFormed s)
    (hp : ∀ q, p = some q → q < s.registries.size) :
    WellFormed ((Store.addRegistry { parent := p }).run.run s).2 where
  parents i q hq := by
    simp only [Store.run_addRegistry, Store.at!_push] at hq ⊢
    split_ifs at hq with h1 h2
    · exact hs.parents i q hq
    · subst h2
      exact hp q hq
    · simp [default_eq] at hq
  frozen i := by
    have := hs.size_pos
    simp only [Store.run_addRegistry, Store.at!_push]
    split_ifs with h1 h2
    · exact hs.frozen i
    · simp [builtins]
      omega
    · simp [default_eq, builtins]
      omega

theorem WellFormed.call {s s' : Store} (hs : WellFormed s) (h : Call s s') : WellFormed s' := by
  cases h with
  | create hp => exact hs.create hp
  | register id key tag => exact hs.rebinds (register_rebinds s key tag)
  | unregister id key => exact hs.rebinds (unregister_rebinds s key)

/-- Every store reached by creating registries and changing them is well formed. -/
theorem wellFormed_of_reachable {s : Store} (hs : Relation.ReflTransGen Call Store.initial s) :
    WellFormed s := by
  induction hs with
  | refl => exact wellFormed_initial
  | tail _ h ih => exact ih.call h

/-! ### Registries in every reachable store -/

/-- How the registries of a store answer. Lookups find the nearest binding along the chain of
parents and nothing for keys that cannot be hashed; a change to one registry is seen only from
the registries whose chain passes through it; the built-in registry is the one frozen registry;
every refused call leaves the store as it was; and declarations and primitives are read through
lookups. A registry with no bindings of its own accepts any key to unregister, one that cannot be
hashed included, since it has nothing to remove. -/
structure Behaves (s : Store) : Prop where
  lookup_nearest : ∀ r key, ∃ o, (lookup r key).run.run s = (.ok o, s) ∧
    ∀ t, o = some t ↔ Nearest s key r t
  lookup_unhashable : ∀ r key, key.hashable = false → (lookup r key).run.run s = (.ok none, s)
  register_frame : ∀ r key tag q k, ¬ OnChain s q r →
    ((lookup q k).run.run ((register r key tag).run.run s).2).1 = ((lookup q k).run.run s).1
  unregister_frame : ∀ r key q k, ¬ OnChain s q r →
    ((lookup q k).run.run ((unregister r key).run.run s).2).1 = ((lookup q k).run.run s).1
  frozen_iff : ∀ r, (Store.at! s.registries r).frozen = true ↔ r = builtins
  register_builtins : ∀ key tag,
    (register builtins key tag).run.run s = (.error .frozenRegister, s)
  unregister_builtins : ∀ key,
    (unregister builtins key).run.run s = (.error .frozenUnregister, s)
  register_not_tag : ∀ r key tag, r ≠ builtins → (∀ t, tag ≠ .tag t) →
    (register r key tag).run.run s = (.error (.notATag (tag.shown s.namingIn)), s)
  register_unhashable : ∀ r key t c, r ≠ builtins → key.unhashable? = some c →
    (register r key (.tag t)).run.run s = (.error (.unhashable c), s)
  unregister_unhashable : ∀ r key c, r ≠ builtins →
    (Store.at! s.registries r).bindings ≠ [] →
    key.unhashable? = some c → (unregister r key).run.run s = (.error (.unhashable c), s)
  unregister_unbound : ∀ r key, r ≠ builtins → (Store.at! s.registries r).bindings = [] →
    (unregister r key).run.run s = (.ok (), s)
  resolve_tag : ∀ r t, (resolve r (.tag t)).run.run s = (.ok (.tag t), s)
  resolve_bound : ∀ r decl t, (∀ u, decl ≠ .tag u) → Nearest s decl r t →
    (resolve r decl).run.run s = (.ok (.tag t), s)
  resolve_unknown : ∀ r name, (∀ t, ¬ Nearest s (.str name) r t) →
    (resolve r (.str name)).run.run s = (.error (.unknownType name), s)
  resolve_other : ∀ r decl, (∀ u, decl ≠ .tag u) → (∀ n, decl ≠ .str n) →
    (∀ t, ¬ Nearest s decl r t) → (resolve r decl).run.run s = (.ok decl, s)
  isPrimitive_iff : ∀ r v, ∃ b, (isPrimitive r v).run.run s = (.ok b, s) ∧
    (b = true ↔ (∀ n, v ≠ .str n) ∧ ∃ t, Nearest s v r t)

theorem WellFormed.behaves {s : Store} (hs : WellFormed s) : Behaves s := by
  -- every registry but the built-in one accepts changes
  have thawed : ∀ r, r ≠ builtins → (Store.at! s.registries r).frozen = false := by
    intro r hr
    simpa [hr] using hs.frozen r
  have builtinsFrozen := (hs.frozen builtins).2 rfl
  exact {
    lookup_nearest := fun r key =>
      ⟨_, run_lookup r key, fun _ => lookupWith_full_iff hs.parents r⟩
    lookup_unhashable := fun r key hk => by
      rw [run_lookup,
        (lookupWith_full_eq_none hs.parents r).2 fun _ => not_nearest_of_unhashable hk]
    register_frame := fun r key tag q k hq => (register_rebinds s key tag).lookup_eq hq
    unregister_frame := fun r key q k hq => (unregister_rebinds s key).lookup_eq hq
    frozen_iff := hs.frozen
    register_builtins := fun key tag => register_of_frozen s key tag builtinsFrozen
    unregister_builtins := fun key => unregister_of_frozen s key builtinsFrozen
    register_not_tag := fun r key tag hr ht => register_of_not_tag s key tag (thawed r hr) ht
    register_unhashable := fun r key t c hr hc => register_of_unhashable s t (thawed r hr) hc
    unregister_unhashable := fun r key c hr hb hc => unregister_of_unhashable s (thawed r hr) hb hc
    unregister_unbound := fun r key hr hb => unregister_of_bindings_nil s key (thawed r hr) hb
    resolve_tag := resolve_tag
    resolve_bound := fun r decl t hd hn =>
      resolve_of_lookup hd ((lookupWith_full_iff hs.parents r).2 hn)
    resolve_unknown := fun r name hn =>
      resolve_str_of_unbound ((lookupWith_full_eq_none hs.parents r).2 hn)
    resolve_other := fun r decl hd hstr hn =>
      resolve_of_unbound hd hstr ((lookupWith_full_eq_none hs.parents r).2 hn)
    isPrimitive_iff := isPrimitive_spec hs.parents }

/-- Registries behave as a chain of scopes in every store reached from a session's start by
creating registries under existing ones and registering and unregistering keys. -/
theorem reachable_behaves {s : Store} (hs : Relation.ReflTransGen Call Store.initial s) :
    Behaves s :=
  (wellFormed_of_reachable hs).behaves

end Registry

/-- A registry made under the built-in one, with no bindings of its own. -/
def childStore : Store :=
  ((Store.addRegistry { parent := some Registry.builtins }).run.run Store.initial).2

/-- The store after binding the text "label" to the text tag in that registry. -/
def labelStore : Store :=
  ((Registry.register 1 (.str "label") (.tag (.primitive .string))).run.run childStore).2

theorem childStore_reachable : Relation.ReflTransGen Registry.Call Store.initial childStore :=
  .single (.create fun q hq => by cases hq; decide)

theorem reachable_behaves_label :
    Relation.ReflTransGen Registry.Call Store.initial labelStore ∧ Registry.Behaves labelStore :=
  have h := childStore_reachable.tail (.register _ 1 _ _)
  ⟨h, Registry.reachable_behaves h⟩

/-- Registry keys compare as numbers: a binding of `1` is found for `True`. -/
example : ((Registry.lookup 1 (.bool true)).run.run
    ((Registry.register 1 (.int 1) (.tag (.primitive .string))).run.run childStore).2).1 =
      .ok (some (.primitive .string)) := by
  cbv

/-- A registry with no bindings of its own accepts a list to unregister, and nothing changes. -/
theorem unregister_accepts_list :
    (Registry.unregister 1 (.list [.int 1])).run.run childStore = (.ok (), childStore) := rfl

end Schematic
