import Mathlib
import Schematic.Proofs.Run
import Schematic.Check.Build

/-!
# How a run changes the store

A validation run creates objects (a fresh context for a re-entrant nested check, the checks a
lazy check builds, the tags a lazy term or a wildcard rule makes) and leaves every object it
did not create as it was, apart from the state that runs keep in them: the messages and hooks
of a context, the busy flag of a nested-schema check, the check a lazy check builds on its
first run, and the target a lazy tag resolves to. `Store.Grows s t` says that `t` is `s`
changed only in those ways.

`Store.Built s k b spec rule tag` describes the check `b` that `Build.factory` makes for `tag`
under `spec`, followed by `rule`: a tree of checks, all at handles `k` and above. The bound is
what lets a lazy check record the check it built: the built tree is fresh, above the lazy check
itself, so recording it changes no check of the tree.
-/

namespace Schematic

namespace Check

/-- `c'` is `c` with at most its run state changed: the busy flag of a nested-schema check,
or the check a lazy check builds when it had none. -/
def Refines (c c' : Check) : Prop :=
  match c with
  | .nested sid owned _ => ∃ busy, c' = .nested sid owned busy
  | .lazy lid field spec owner none => ∃ built, c' = .lazy lid field spec owner built
  | _ => c' = c

theorem Refines.refl (c : Check) : c.Refines c := by
  unfold Refines
  split <;> simp

theorem Refines.trans {c c' c'' : Check} (h : c.Refines c') (h' : c'.Refines c'') :
    c.Refines c'' := by
  unfold Refines at h
  split at h
  · obtain ⟨busy, rfl⟩ := h
    exact h'
  · obtain ⟨built, rfl⟩ := h
    cases built with
    | none => exact h'
    | some b => exact ⟨some b, h'⟩
  · subst h
    exact h'

/-- A check that is neither a nested-schema check nor an unbuilt lazy check is only refined
by itself. -/
theorem Refines.eq_of_fixed {c c' : Check} (h : c.Refines c')
    (hn : ∀ sid owned busy, c ≠ .nested sid owned busy)
    (hl : ∀ lid field spec owner, c ≠ .lazy lid field spec owner none) : c' = c := by
  unfold Refines at h
  split at h
  · exact absurd rfl (hn _ _ _)
  · exact absurd rfl (hl _ _ _ _)
  · exact h

end Check

namespace LazyTag

/-- `l'` is `l`, its target possibly resolved. -/
structure Refines (l l' : LazyTag) : Prop where
  body : l'.body = l.body
  registry : l'.registry = l.registry
  name : l'.name = l.name
  target : ∀ t, l.target = some t → l'.target = some t

theorem Refines.refl (l : LazyTag) : l.Refines l :=
  ⟨rfl, rfl, rfl, fun _ h => h⟩

theorem Refines.trans {l l' l'' : LazyTag} (h : l.Refines l') (h' : l'.Refines l'') :
    l.Refines l'' :=
  ⟨h'.body.trans h.body, h'.registry.trans h.registry, h'.name.trans h.name,
    fun t ht => h'.target t (h.target t ht)⟩

end LazyTag

namespace Store

/-- `Built s k b spec rule tag`: `b` is the check `Build.factory` makes for `tag` under
`spec` followed by `rule`, every check of it at a handle `k` or above. A lazy check may have
built the check of its tag's target since. -/
inductive Built (s : Store) (k : Nat) : Nat → Spec → Option Value → Tag → Prop where
  | member {b spec p} (h : s.checks[b]? = some (.member p)) (hk : k ≤ b) :
      Built s k b spec none (.primitive p)
  | bounded {b spec p} (h : s.checks[b]? = some (.bounded p spec.min spec.max)) (hk : k ≤ b) :
      Built s k b spec none (.primitive p)
  | pass {b spec} (h : s.checks[b]? = some .pass) (hk : k ≤ b) : Built s k b spec none .any
  | union {b spec id u cs} (h : s.checks[b]? = some (.union cs)) (hk : k ≤ b)
      (hu : s.unions[id]? = some u) (hlen : cs.length = u.candidates.length)
      (hcands : ∀ x ∈ u.candidates.zip cs, Built s k x.2.2 x.1 x.1.custom x.1.type) :
      Built s k b spec none (.anyOf id)
  | array {b spec id a e lo hi} (h : s.checks[b]? = some (.array e lo hi)) (hk : k ≤ b)
      (ha : s.arrays[id]? = some a) (he : Built s k e spec none a.element) :
      Built s k b spec none (.arrayOf id)
  | nested {b spec sid owned busy} (h : s.checks[b]? = some (.nested sid owned busy))
      (hk : k ≤ b) (howned : ∃ c, s.contexts[owned]? = some c ∧ c.schema = sid) :
      Built s k b spec none (.schema sid)
  | lazy {b spec lid field owner} (h : s.checks[b]? = some (.lazy lid field spec owner none))
      (hk : k ≤ b) : Built s k b spec none (.lazy lid)
  | lazyBuilt {b spec lid field owner c l t}
      (h : s.checks[b]? = some (.lazy lid field spec owner (some c))) (hk : k ≤ b)
      (hl : s.lazies[lid]? = some l) (ht : l.target = some t) (hc : Built s k c spec none t) :
      Built s k b spec none (.lazy lid)
  | custom {b spec inner r tag} (h : s.checks[b]? = some (.custom inner r)) (hk : k ≤ b)
      (hi : Built s k inner spec none tag) : Built s k b spec (some r) tag

/-- `t` is `s` with new objects added and only run state changed in the old ones. -/
structure Grows (s t : Store) : Prop where
  schemas : ∀ (i : Nat) x, s.schemas[i]? = some x → t.schemas[i]? = some x
  contexts : ∀ (i : Nat) c, s.contexts[i]? = some c →
    ∃ c', t.contexts[i]? = some c' ∧ c'.schema = c.schema
  unions : ∀ (i : Nat) u, s.unions[i]? = some u → t.unions[i]? = some u
  arrays : ∀ (i : Nat) a, s.arrays[i]? = some a → t.arrays[i]? = some a
  lazies : ∀ (i : Nat) l, s.lazies[i]? = some l → ∃ l', t.lazies[i]? = some l' ∧ l.Refines l'
  checks : ∀ (i : Nat) c, s.checks[i]? = some c → ∃ c', t.checks[i]? = some c' ∧ c.Refines c'
  /-- A check a lazy check built is the fresh check of its tag's target. -/
  built : ∀ (i lid : Nat) field spec owner b,
    s.checks[i]? = some (.lazy lid field spec owner none) →
    t.checks[i]? = some (.lazy lid field spec owner (some b)) →
    ∃ l tt k, t.lazies[lid]? = some l ∧ l.target = some tt ∧ i < k ∧ Built t k b spec none tt
  registries : t.registries = s.registries
  schemaNames : t.schemaNames = s.schemaNames
  registryNames : t.registryNames = s.registryNames

theorem Grows.checks_size {s t : Store} (h : s.Grows t) : s.checks.size ≤ t.checks.size := by
  rcases Nat.eq_zero_or_pos s.checks.size with h0 | hpos
  · omega
  · obtain ⟨c', hc', -⟩ := h.checks (s.checks.size - 1) _ (Array.getElem?_eq_getElem (by omega))
    have := (Array.getElem?_eq_some_iff.mp hc').1
    omega

theorem Built.weaken {s : Store} {k k' b spec rule tag} (hk : k' ≤ k)
    (h : s.Built k b spec rule tag) : s.Built k' b spec rule tag := by
  induction h with
  | member h hb => exact .member h (by omega)
  | bounded h hb => exact .bounded h (by omega)
  | pass h hb => exact .pass h (by omega)
  | union h hb hu hlen _ ih => exact .union h (by omega) hu hlen ih
  | array h hb ha _ ih => exact .array h (by omega) ha ih
  | nested h hb howned => exact .nested h (by omega) howned
  | lazy h hb => exact .lazy h (by omega)
  | lazyBuilt h hb hl ht _ ih => exact .lazyBuilt h (by omega) hl ht ih
  | custom h hb _ ih => exact .custom h (by omega) ih

theorem Built.lt_size {s : Store} {k b spec rule tag} (h : s.Built k b spec rule tag) :
    b < s.checks.size := by
  cases h <;> exact (Array.getElem?_eq_some_iff.mp ‹_›).1

/-- A check that stays fixed as the store grows. -/
theorem Grows.check_fixed {s t : Store} (hg : s.Grows t) {i : Nat} {c : Check} (h : s.checks[i]? = some c)
    (hn : ∀ sid owned busy, c ≠ .nested sid owned busy)
    (hl : ∀ lid field spec owner, c ≠ .lazy lid field spec owner none) :
    t.checks[i]? = some c := by
  obtain ⟨c', hc', href⟩ := hg.checks i c h
  rw [hc', href.eq_of_fixed hn hl]

/-- A built check stays built as the store grows. -/
theorem Built.mono {s t : Store} (hg : s.Grows t) {k b spec rule tag}
    (h : s.Built k b spec rule tag) : t.Built k b spec rule tag := by
  induction h with
  | member h hb => exact .member (hg.check_fixed h (by simp) (by simp)) hb
  | bounded h hb => exact .bounded (hg.check_fixed h (by simp) (by simp)) hb
  | pass h hb => exact .pass (hg.check_fixed h (by simp) (by simp)) hb
  | union h hb hu hlen _ ih =>
    exact .union (hg.check_fixed h (by simp) (by simp)) hb (hg.unions _ _ hu) hlen ih
  | array h hb ha _ ih =>
    exact .array (hg.check_fixed h (by simp) (by simp)) hb (hg.arrays _ _ ha) ih
  | nested h hb howned =>
    obtain ⟨c, hc, hsid⟩ := howned
    obtain ⟨c', hc', href⟩ := hg.checks _ _ h
    obtain ⟨busy', rfl⟩ := href
    obtain ⟨x, hx, hxs⟩ := hg.contexts _ _ hc
    exact .nested hc' hb ⟨x, hx, hxs.trans hsid⟩
  | lazy h hb =>
    obtain ⟨c', hc', href⟩ := hg.checks _ _ h
    obtain ⟨built, rfl⟩ := href
    cases built with
    | none => exact .lazy hc' hb
    | some c =>
      -- the lazy check built its target during the growth: that check is fresh
      obtain ⟨l, tt, k', hl, ht, hk', hc⟩ := hg.built _ _ _ _ _ _ h hc'
      exact .lazyBuilt hc' hb hl ht (hc.weaken (by omega))
  | lazyBuilt h hb hl ht _ ih =>
    obtain ⟨l', hl', href⟩ := hg.lazies _ _ hl
    exact .lazyBuilt (hg.check_fixed h (by simp) (by simp)) hb hl' (href.target _ ht) ih
  | custom h hb _ ih => exact .custom (hg.check_fixed h (by simp) (by simp)) hb ih

theorem Grows.refl (s : Store) : s.Grows s where
  schemas _ _ h := h
  contexts _ c h := ⟨c, h, rfl⟩
  unions _ _ h := h
  arrays _ _ h := h
  lazies _ l h := ⟨l, h, .refl l⟩
  checks _ c h := ⟨c, h, .refl c⟩
  built _ _ _ _ _ _ h h' := by simp [h] at h'
  registries := rfl
  schemaNames := rfl
  registryNames := rfl

theorem Grows.trans {s t u : Store} (h : s.Grows t) (h' : t.Grows u) : s.Grows u where
  schemas i x hx := h'.schemas i x (h.schemas i x hx)
  contexts i c hc := by
    obtain ⟨c₁, h₁, e₁⟩ := h.contexts i c hc
    obtain ⟨c₂, h₂, e₂⟩ := h'.contexts i c₁ h₁
    exact ⟨c₂, h₂, e₂.trans e₁⟩
  unions i x hx := h'.unions i x (h.unions i x hx)
  arrays i x hx := h'.arrays i x (h.arrays i x hx)
  lazies i l hl := by
    obtain ⟨l₁, h₁, r₁⟩ := h.lazies i l hl
    obtain ⟨l₂, h₂, r₂⟩ := h'.lazies i l₁ h₁
    exact ⟨l₂, h₂, r₁.trans r₂⟩
  checks i c hc := by
    obtain ⟨c₁, h₁, r₁⟩ := h.checks i c hc
    obtain ⟨c₂, h₂, r₂⟩ := h'.checks i c₁ h₁
    exact ⟨c₂, h₂, r₁.trans r₂⟩
  built i lid field spec owner b hs hu := by
    obtain ⟨c₁, h₁, r₁⟩ := h.checks i _ hs
    obtain ⟨built, rfl⟩ := r₁
    cases built with
    | none =>
      -- built during the second growth
      exact h'.built _ _ _ _ _ _ h₁ hu
    | some c =>
      -- built during the first growth, and kept since
      have hc : c = b := by
        have := h'.check_fixed h₁ (by simp) (by simp)
        rw [hu] at this
        simpa using this.symm
      subst hc
      obtain ⟨l, tt, k, hl, ht, hik, hb⟩ := h.built _ _ _ _ _ _ hs h₁
      obtain ⟨l', hl', href⟩ := h'.lazies _ _ hl
      exact ⟨l', tt, k, hl', href.target _ ht, hik, hb.mono h'⟩
  registries := h'.registries.trans h.registries
  schemaNames := h'.schemaNames.trans h.schemaNames
  registryNames := h'.registryNames.trans h.registryNames

/-! ### Single steps of growth -/

theorem getElem?_push_of_eq {α : Type} {xs : Array α} {i : Nat} {x y : α}
    (h : xs[i]? = some x) : (xs.push y)[i]? = some x := by
  rw [Array.getElem?_push, if_neg (Array.getElem?_eq_some_iff.mp h).1.ne, h]

theorem grows_push_check (s : Store) (c : Check) : s.Grows { s with checks := s.checks.push c } where
  schemas _ _ h := h
  contexts _ x h := ⟨x, h, rfl⟩
  unions _ _ h := h
  arrays _ _ h := h
  lazies _ l h := ⟨l, h, .refl l⟩
  checks _ x h := ⟨x, getElem?_push_of_eq h, .refl x⟩
  built _ _ _ _ _ _ h h' := by simp [getElem?_push_of_eq h] at h'
  registries := rfl
  schemaNames := rfl
  registryNames := rfl

theorem grows_push_context (s : Store) (c : Context) :
    s.Grows { s with contexts := s.contexts.push c } where
  schemas _ _ h := h
  contexts _ x h := ⟨x, getElem?_push_of_eq h, rfl⟩
  unions _ _ h := h
  arrays _ _ h := h
  lazies _ l h := ⟨l, h, .refl l⟩
  checks _ x h := ⟨x, h, .refl x⟩
  built _ _ _ _ _ _ h h' := by simp [h] at h'
  registries := rfl
  schemaNames := rfl
  registryNames := rfl

theorem grows_push_union (s : Store) (u : UnionTag) :
    s.Grows { s with unions := s.unions.push u } where
  schemas _ _ h := h
  contexts _ x h := ⟨x, h, rfl⟩
  unions _ _ h := getElem?_push_of_eq h
  arrays _ _ h := h
  lazies _ l h := ⟨l, h, .refl l⟩
  checks _ x h := ⟨x, h, .refl x⟩
  built _ _ _ _ _ _ h h' := by simp [h] at h'
  registries := rfl
  schemaNames := rfl
  registryNames := rfl

theorem grows_push_array (s : Store) (a : ArrayTag) :
    s.Grows { s with arrays := s.arrays.push a } where
  schemas _ _ h := h
  contexts _ x h := ⟨x, h, rfl⟩
  unions _ _ h := h
  arrays _ _ h := getElem?_push_of_eq h
  lazies _ l h := ⟨l, h, .refl l⟩
  checks _ x h := ⟨x, h, .refl x⟩
  built _ _ _ _ _ _ h h' := by simp [h] at h'
  registries := rfl
  schemaNames := rfl
  registryNames := rfl

/-- Changing a context's messages or hooks, keeping its schema. -/
theorem grows_set_context (s : Store) (i : Nat) (c : Context)
    (hc : ∀ c₀, s.contexts[i]? = some c₀ → c.schema = c₀.schema) :
    s.Grows { s with contexts := s.contexts.setIfInBounds i c } where
  schemas _ _ h := h
  contexts j x h := by
    by_cases hij : i = j
    · subst hij
      exact ⟨c, by simp [(Array.getElem?_eq_some_iff.mp h).1], hc x h⟩
    · exact ⟨x, by simp [hij, h], rfl⟩
  unions _ _ h := h
  arrays _ _ h := h
  lazies _ l h := ⟨l, h, .refl l⟩
  checks _ x h := ⟨x, h, .refl x⟩
  built _ _ _ _ _ _ h h' := by simp [h] at h'
  registries := rfl
  schemaNames := rfl
  registryNames := rfl

/-- Changing a check to one that refines it, building no lazy check. -/
theorem grows_set_check (s : Store) (i : Nat) (c : Check)
    (hc : ∀ c₀, s.checks[i]? = some c₀ → c₀.Refines c)
    (hlazy : ∀ lid field spec owner b, c ≠ .lazy lid field spec owner (some b)) :
    s.Grows { s with checks := s.checks.setIfInBounds i c } where
  schemas _ _ h := h
  contexts _ x h := ⟨x, h, rfl⟩
  unions _ _ h := h
  arrays _ _ h := h
  lazies _ l h := ⟨l, h, .refl l⟩
  checks j x h := by
    by_cases hij : i = j
    · subst hij
      exact ⟨c, by simp [(Array.getElem?_eq_some_iff.mp h).1], hc x h⟩
    · exact ⟨x, by simp [hij, h], .refl x⟩
  built j _ _ _ _ _ h h' := by
    by_cases hij : i = j
    · subst hij
      simp [(Array.getElem?_eq_some_iff.mp h).1] at h'
      exact absurd h' (hlazy _ _ _ _ _)
    · simp [hij, h] at h'
  registries := rfl
  schemaNames := rfl
  registryNames := rfl

/-- A built tree stays built when a check below it changes. -/
theorem Built.set_below {s : Store} {k b spec rule tag} (h : s.Built k b spec rule tag)
    {i : Nat} (hi : i < k) (c : Check) :
    Built { s with checks := s.checks.setIfInBounds i c } k b spec rule tag := by
  have hget : ∀ j, k ≤ j → (s.checks.setIfInBounds i c)[j]? = s.checks[j]? :=
    fun j hj => Array.getElem?_setIfInBounds_ne (by omega)
  induction h with
  | member h hb => exact .member ((hget _ hb).trans h) hb
  | bounded h hb => exact .bounded ((hget _ hb).trans h) hb
  | pass h hb => exact .pass ((hget _ hb).trans h) hb
  | union h hb hu hlen _ ih => exact .union ((hget _ hb).trans h) hb hu hlen ih
  | array h hb ha _ ih => exact .array ((hget _ hb).trans h) hb ha ih
  | nested h hb howned => exact .nested ((hget _ hb).trans h) hb howned
  | lazy h hb => exact .lazy ((hget _ hb).trans h) hb
  | lazyBuilt h hb hl ht _ ih => exact .lazyBuilt ((hget _ hb).trans h) hb hl ht ih
  | custom h hb _ ih => exact .custom ((hget _ hb).trans h) hb ih

/-- A lazy check recording the check it built for its tag's target, a tree above it. -/
theorem grows_set_built (s : Store) {i lid : Nat} {field spec owner l tt k b}
    (hi : s.checks[i]? = some (.lazy lid field spec owner none))
    (hl : s.lazies[lid]? = some l) (ht : l.target = some tt) (hik : i < k)
    (hb : s.Built k b spec none tt) :
    s.Grows { s with checks := s.checks.setIfInBounds i (.lazy lid field spec owner (some b)) } where
  schemas _ _ h := h
  contexts _ x h := ⟨x, h, rfl⟩
  unions _ _ h := h
  arrays _ _ h := h
  lazies _ l h := ⟨l, h, .refl l⟩
  checks j x h := by
    by_cases hij : i = j
    · subst hij
      rw [hi] at h
      cases h
      exact ⟨_, by simp [(Array.getElem?_eq_some_iff.mp hi).1], some b, rfl⟩
    · exact ⟨x, by simp [hij, h], .refl x⟩
  built j _ _ _ _ _ h h' := by
    by_cases hij : i = j
    · subst hij
      rw [hi] at h
      simp only [Option.some.injEq, Check.lazy.injEq] at h
      obtain ⟨rfl, rfl, rfl, rfl, -⟩ := h
      simp [(Array.getElem?_eq_some_iff.mp hi).1] at h'
      subst h'
      exact ⟨l, tt, k, hl, ht, hik, hb.set_below hik _⟩
    · simp [hij, h] at h'
  registries := rfl
  schemaNames := rfl
  registryNames := rfl

/-- Every check of `s` is in `t` as it was: `t` only added checks. -/
def KeepsChecks (s t : Store) : Prop := ∀ (i : Nat) c, s.checks[i]? = some c → t.checks[i]? = some c

theorem KeepsChecks.refl (s : Store) : s.KeepsChecks s := fun _ _ h => h

theorem KeepsChecks.trans {s t u : Store} (h : s.KeepsChecks t) (h' : t.KeepsChecks u) :
    s.KeepsChecks u := fun i c hc => h' i c (h i c hc)

theorem keepsChecks_push (s : Store) (c : Check) :
    s.KeepsChecks { s with checks := s.checks.push c } := fun _ _ h => getElem?_push_of_eq h

end Store


/-! ### Computations that only grow the store

`Growing m` says that `m` leaves, from every store, a store grown from it, whether it succeeds
or raises. It is a class with an instance for each way computations are put together, so that
instance search proves it for a whole `do` block; a block that matches on a result it computed
is split by hand first. Building declarations and calling custom rules are `Growing`: they
create unions, arrays and objects, and change nothing that exists. -/

/-- `m` only grows the store. -/
class Growing {α : Type} (m : Run α) : Prop where
  grows : ∀ s : Store, s.Grows (m.run.run s).2

namespace Growing

variable {α β : Type}

instance of_pure (a : α) : Growing (pure a : Run α) := ⟨Store.Grows.refl⟩

instance of_throw (e : Fault) : Growing (throw e : Run α) := ⟨Store.Grows.refl⟩

instance of_read (f : Store → α) : Growing (Store.read f) := ⟨Store.Grows.refl⟩

instance bind {x : Run α} {f : α → Run β} [hx : Growing x] [hf : ∀ a, Growing (f a)] :
    Growing (x >>= f) := by
  refine ⟨fun s => ?_⟩
  rw [Run.run_bind]
  rcases h : x.run.run s with ⟨r, t⟩
  have hst : s.Grows t := by simpa [h] using hx.grows s
  cases r with
  | ok a => exact hst.trans ((hf a).grows t)
  | error e => exact hst

instance of_ite {c : Prop} [Decidable c] {x y : Run α} [Growing x] [Growing y] :
    Growing (if c then x else y) := by
  split <;> infer_instance

instance mapM {f : α → Run β} [∀ a, Growing (f a)] : ∀ xs : List α, Growing (xs.mapM f)
  | [] => of_pure []
  | x :: xs => by
    rw [List.mapM_cons]
    have := mapM (f := f) xs
    infer_instance

instance of_lift (r : Except Fault α) : Growing (Rule.lift r) := by
  cases r <;> exact ⟨Store.Grows.refl⟩

instance of_naming : Growing Store.naming := ⟨Store.Grows.refl⟩

instance of_plain (v : Value) : Growing (Store.plain v) := ⟨Store.Grows.refl⟩

instance of_shown (v : Value) : Growing (Store.shown v) := ⟨Store.Grows.refl⟩

instance of_tagName (t : Tag) : Growing (Store.tagName t) := ⟨Store.Grows.refl⟩

instance of_addArray (a : ArrayTag) : Growing (Store.addArray a) :=
  ⟨fun s => Store.grows_push_array s a⟩

instance of_addUnion (u : UnionTag) : Growing (Store.addUnion u) :=
  ⟨fun s => Store.grows_push_union s u⟩

end Growing

instance Registry.resolve_growing (id : Nat) (decl : Value) :
    Growing (Registry.resolve id decl) := by
  unfold Registry.resolve Registry.lookup
  split
  · infer_instance
  · refine @Growing.bind _ _ _ _ inferInstance fun o => ?_
    split
    · infer_instance
    · split <;> infer_instance

instance Declaration.newArray_growing (t : Tag) : Growing (Declaration.newArray t) := by
  unfold Declaration.newArray
  infer_instance

instance Declaration.resolveType_growing (reg : Option Nat) (field : Option String) (v : Value) :
    Growing (Declaration.resolveType reg field v) := by
  induction v using Declaration.resolveType.induct with
  | case1 => rw [Declaration.resolveType]; infer_instance
  | case2 => rw [Declaration.resolveType]; infer_instance
  | case3 x hx ih => rw [Declaration.resolveType.eq_3 _ _ _ hx]; infer_instance
  | case4 items h => rw [Declaration.resolveType.eq_4 _ _ _ h]; infer_instance
  | case5 id => rw [Declaration.resolveType]; infer_instance
  | case6 decl h1 h2 h3 h4 =>
    rw [Declaration.resolveType.eq_6 _ _ _ h1 h2 h3 h4]
    refine @Growing.bind _ _ _ _ inferInstance fun o => ?_
    split <;> infer_instance

instance Declaration.normalizeField_growing (reg : Option Nat) (field : Option String)
    (decl : Value) : Growing (Declaration.normalizeField reg field decl) := by
  unfold Declaration.normalizeField
  split <;> infer_instance

instance Declaration.newUnion_growing (reg : Option Nat) (cands : List Value) :
    Growing (Declaration.newUnion reg cands) := by
  unfold Declaration.newUnion
  infer_instance

instance Rule.call_growing (r : Rule) (v : Value) : Growing (Rule.call r v) := by
  cases r <;> simp only [Rule.call] <;> infer_instance

/-- A custom rule, whatever it is, only grows the store. -/
instance Rule.callValue_growing (f v : Value) : Growing (Rule.callValue f v) := by
  unfold Rule.callValue
  split <;> infer_instance

end Schematic
