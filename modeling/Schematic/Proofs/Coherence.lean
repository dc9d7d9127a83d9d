import Mathlib
import Schematic.Proofs.Messages
import Schematic.Proofs.Growth

/-!
# The run state validations rely on

A validation writes into contexts that outlive it, and a nested-schema check runs in the context
it owns whenever it is not busy. For the messages of a run to depend on nothing but the data,
the store keeps four facts, gathered in `Store.Coherent`: a nested-schema check owns a context
of its schema, no two checks own one context, no path occurs twice in a message map, and a
field's validator is named after its field.

* `Store.Adds s t`: `t` is `s` with objects added and nothing changed. Building declarations,
  checks and schemas only adds (`Adding`), and a nested-schema check it adds owns a context
  added with it (`Store.Fresh`);
* `Store.Steps s t`: `t` follows `s` in a run, which may also change the messages of contexts,
  the busy flags of nested checks and the checks lazy checks build;
* `Stays P m s`: run from `s`, `m` keeps the property `P` of the store, whatever it answers or
  raises. Its rules put `do` blocks together one step at a time.
-/

namespace Schematic

namespace Check

/-- A check refined into a nested-schema check was that check, with another busy flag. -/
theorem Refines.nested_of {c : Check} {sid owned : Nat} {busy : Bool}
    (h : c.Refines (.nested sid owned busy)) : ∃ b, c = .nested sid owned b := by
  unfold Refines at h
  split at h
  · obtain ⟨b, hb⟩ := h
    cases hb
    exact ⟨_, rfl⟩
  · obtain ⟨built, hb⟩ := h
    cases hb
  · exact ⟨busy, h.symm⟩

end Check

namespace Store

/-! ### The invariant -/

/-- The run state of `s` is in order. -/
structure Coherent (s : Store) : Prop where
  /-- A nested-schema check owns a context of its schema. -/
  owned : ∀ (i : Nat) sid owned busy, s.checks[i]? = some (.nested sid owned busy) →
    ∃ cx, s.contexts[owned]? = some cx ∧ cx.schema = sid
  /-- No two checks own one context. -/
  unique : ∀ (i j : Nat) sid sid' owned busy busy',
    s.checks[i]? = some (.nested sid owned busy) → s.checks[j]? = some (.nested sid' owned busy') →
    i = j
  /-- No path occurs twice in a message map. -/
  keyed : ∀ (j : Nat) cx, s.contexts[j]? = some cx → Messages.Keyed cx.messages
  /-- A field's validator copies nested messages under the field's name. -/
  named : ∀ (sid : Nat) sch, s.schemas[sid]? = some sch → ∀ f ∈ sch.fields,
    f.2.validator.field = some f.1

/-- A context no run may take for a nested check: it exists, and every check owning it is
busy. A context made for a caller is owned by no check, so it is free. -/
def Free (s : Store) (j : Nat) : Prop :=
  j < s.contexts.size ∧ ∀ (i : Nat) sid busy, s.checks[i]? = some (.nested sid j busy) → busy = true

/-- `t` is `s` with objects added and run state changed: the schemas as they were, every
context of the same schema, every check refined. -/
structure Ext (s t : Store) : Prop where
  schemas : ∀ (i : Nat) x, s.schemas[i]? = some x → t.schemas[i]? = some x
  contexts : ∀ (i : Nat) c, s.contexts[i]? = some c →
    ∃ c', t.contexts[i]? = some c' ∧ c'.schema = c.schema
  checks : ∀ (i : Nat) c, s.checks[i]? = some c → ∃ c', t.checks[i]? = some c' ∧ c.Refines c'

/-- Every nested-schema check `t` has beyond those of `s` owns a context `s` does not have. -/
def Fresh (s t : Store) : Prop :=
  ∀ (i : Nat) sid owned busy, s.checks.size ≤ i → t.checks[i]? = some (.nested sid owned busy) →
    s.contexts.size ≤ owned

/-- `t` follows `s` in a run. -/
structure Steps (s t : Store) : Prop where
  ext : s.Ext t
  fresh : s.Fresh t

/-- `t` is `s` with objects added, and every object of `s` as it was. -/
structure Adds (s t : Store) : Prop where
  schemas : ∀ (i : Nat) x, s.schemas[i]? = some x → t.schemas[i]? = some x
  contexts : ∀ (i : Nat) c, s.contexts[i]? = some c → t.contexts[i]? = some c
  checks : ∀ (i : Nat) c, s.checks[i]? = some c → t.checks[i]? = some c
  fresh : s.Fresh t

/-! ### Growth of handles -/

theorem size_le_of_getElem? {α : Type} {xs ys : Array α}
    (h : ∀ (i : Nat) x, xs[i]? = some x → ∃ y, ys[i]? = some y) : xs.size ≤ ys.size := by
  rcases Nat.eq_zero_or_pos xs.size with h0 | hpos
  · omega
  · obtain ⟨y, hy⟩ := h (xs.size - 1) _ (Array.getElem?_eq_getElem (by omega))
    have := (Array.getElem?_eq_some_iff.mp hy).1
    omega

namespace Ext

theorem refl (s : Store) : s.Ext s :=
  ⟨fun _ _ h => h, fun _ c h => ⟨c, h, rfl⟩, fun _ c h => ⟨c, h, .refl c⟩⟩

theorem trans {s t u : Store} (h : s.Ext t) (h' : t.Ext u) : s.Ext u where
  schemas i x hx := h'.schemas i x (h.schemas i x hx)
  contexts i c hc := by
    obtain ⟨c₁, h₁, e₁⟩ := h.contexts i c hc
    obtain ⟨c₂, h₂, e₂⟩ := h'.contexts i c₁ h₁
    exact ⟨c₂, h₂, e₂.trans e₁⟩
  checks i c hc := by
    obtain ⟨c₁, h₁, r₁⟩ := h.checks i c hc
    obtain ⟨c₂, h₂, r₂⟩ := h'.checks i c₁ h₁
    exact ⟨c₂, h₂, r₁.trans r₂⟩

theorem contexts_size {s t : Store} (h : s.Ext t) : s.contexts.size ≤ t.contexts.size :=
  size_le_of_getElem? fun i c hc => (h.contexts i c hc).imp fun _ h => h.1

theorem checks_size {s t : Store} (h : s.Ext t) : s.checks.size ≤ t.checks.size :=
  size_le_of_getElem? fun i c hc => (h.checks i c hc).imp fun _ h => h.1

/-- A nested check of `t` that `s` had was a nested check of `s`, owning the same context. -/
theorem nested_of {s t : Store} (h : s.Ext t) {i sid owned : Nat} {busy : Bool}
    (hi : i < s.checks.size) (ht : t.checks[i]? = some (.nested sid owned busy)) :
    ∃ b, s.checks[i]? = some (.nested sid owned b) := by
  obtain ⟨c', hc', href⟩ := h.checks i s.checks[i] (Array.getElem?_eq_getElem hi)
  rw [ht] at hc'
  cases hc'
  obtain ⟨b, hb⟩ := href.nested_of
  exact ⟨b, by rw [Array.getElem?_eq_getElem hi, hb]⟩

end Ext

theorem Fresh.trans {s t u : Store} (h : s.Fresh t) (h' : t.Fresh u) (hx : t.Ext u)
    (hsize : s.contexts.size ≤ t.contexts.size) : s.Fresh u := by
  intro i sid owned busy hi hu
  by_cases hit : i < t.checks.size
  · -- the check was already in `t`, owning the same context
    obtain ⟨b, hb⟩ := hx.nested_of hit hu
    exact h i sid owned b hi hb
  · exact hsize.trans (h' i sid owned busy (by omega) hu)

namespace Steps

theorem refl (s : Store) : s.Steps s := ⟨.refl s, fun _ _ _ _ hi h => absurd
  (Array.getElem?_eq_some_iff.mp h).1 (by omega)⟩

theorem trans {s t u : Store} (h : s.Steps t) (h' : t.Steps u) : s.Steps u :=
  ⟨h.ext.trans h'.ext, h.fresh.trans h'.fresh h'.ext h.ext.contexts_size⟩

end Steps

namespace Adds

theorem ext {s t : Store} (h : s.Adds t) : s.Ext t :=
  ⟨h.schemas, fun i c hc => ⟨c, h.contexts i c hc, rfl⟩, fun i c hc => ⟨c, h.checks i c hc, .refl c⟩⟩

theorem steps {s t : Store} (h : s.Adds t) : s.Steps t := ⟨h.ext, h.fresh⟩

theorem refl (s : Store) : s.Adds s :=
  ⟨fun _ _ h => h, fun _ _ h => h, fun _ _ h => h, (Steps.refl s).fresh⟩

theorem trans {s t u : Store} (h : s.Adds t) (h' : t.Adds u) : s.Adds u :=
  ⟨fun i x hx => h'.schemas i x (h.schemas i x hx), fun i x hx => h'.contexts i x (h.contexts i x hx),
    fun i x hx => h'.checks i x (h.checks i x hx), (h.steps.trans h'.steps).fresh⟩

/-- A store with the same schemas, contexts and checks only added to. -/
theorem of_same {s t : Store} (hs : t.schemas = s.schemas) (hc : t.contexts = s.contexts)
    (hk : t.checks = s.checks) : s.Adds t :=
  ⟨fun _ _ h => hs ▸ h, fun _ _ h => hc ▸ h, fun _ _ h => hk ▸ h,
    fun _ _ _ _ hi h => absurd (Array.getElem?_eq_some_iff.mp (hk ▸ h)).1 (by omega)⟩

end Adds

theorem Free.lt {s : Store} {j : Nat} (h : s.Free j) : j < s.contexts.size := h.1

/-! ### Single changes -/

namespace Coherent

variable {s : Store}

/-- A store with the same schemas, contexts and checks. -/
theorem of_same {t : Store} (h : s.Coherent) (hs : t.schemas = s.schemas)
    (hc : t.contexts = s.contexts) (hk : t.checks = s.checks) : t.Coherent :=
  ⟨hk ▸ hc ▸ h.owned, hk ▸ h.unique, hc ▸ h.keyed, hs ▸ h.named⟩

/-- The context a nested-schema check owns was made before the check's handle was given out. -/
theorem owned_lt (h : s.Coherent) {i sid owned : Nat} {busy : Bool}
    (hi : s.checks[i]? = some (.nested sid owned busy)) : owned < s.contexts.size := by
  obtain ⟨cx, hcx, -⟩ := h.owned i sid owned busy hi
  exact (Array.getElem?_eq_some_iff.mp hcx).1

theorem push_check (h : s.Coherent) {c : Check} (hc : ∀ sid owned busy, c ≠ .nested sid owned busy) :
    { s with checks := s.checks.push c }.Coherent where
  owned i sid owned busy hi := by
    rw [Array.getElem?_push] at hi
    split at hi
    · cases hi
      exact absurd rfl (hc _ _ _)
    · exact h.owned i sid owned busy hi
  unique i j sid sid' owned busy busy' hi hj := by
    rw [Array.getElem?_push] at hi hj
    split at hi
    · cases hi
      exact absurd rfl (hc _ _ _)
    · split at hj
      · cases hj
        exact absurd rfl (hc _ _ _)
      · exact h.unique i j sid sid' owned busy busy' hi hj
  keyed := h.keyed
  named := h.named

theorem push_context (h : s.Coherent) {c : Context} (hc : Messages.Keyed c.messages) :
    { s with contexts := s.contexts.push c }.Coherent where
  owned i sid owned busy hi := by
    obtain ⟨cx, hcx, hsid⟩ := h.owned i sid owned busy hi
    exact ⟨cx, getElem?_push_of_eq hcx, hsid⟩
  unique := h.unique
  keyed j cx hj := by
    rw [Array.getElem?_push] at hj
    split at hj
    · cases hj
      exact hc
    · exact h.keyed j cx hj
  named := h.named

/-- Changing a context's messages and hooks, keeping its schema and a keyed map. -/
theorem set_context (h : s.Coherent) {j : Nat} {c : Context}
    (hschema : ∀ c₀, s.contexts[j]? = some c₀ → c.schema = c₀.schema)
    (hc : Messages.Keyed c.messages) :
    { s with contexts := s.contexts.setIfInBounds j c }.Coherent where
  owned i sid owned busy hi := by
    obtain ⟨cx, hcx, hsid⟩ := h.owned i sid owned busy hi
    by_cases hj : j = owned
    · subst hj
      exact ⟨c, by simp [(Array.getElem?_eq_some_iff.mp hcx).1], (hschema cx hcx).trans hsid⟩
    · exact ⟨cx, by rw [Array.getElem?_setIfInBounds_ne hj, hcx], hsid⟩
  unique := h.unique
  keyed i cx hi := by
    rw [Array.getElem?_setIfInBounds] at hi
    split at hi
    · split at hi
      · cases hi
        exact hc
      · cases hi
    · exact h.keyed i cx hi
  named := h.named

/-- Changing a check to another of the same kind of ownership: a nested check keeps its schema
and context, any other check stays other than nested. -/
theorem set_check (h : s.Coherent) {i : Nat} {c c' : Check} (hi : s.checks[i]? = some c)
    (hc : ∀ sid owned busy, c' = .nested sid owned busy → ∃ b, c = .nested sid owned b) :
    { s with checks := s.checks.setIfInBounds i c' }.Coherent := by
  -- every nested check of the new store is a nested check of the old one, at the same handle
  have hback : ∀ (j : Nat) sid owned busy,
      (s.checks.setIfInBounds i c')[j]? = some (.nested sid owned busy) →
        ∃ b, s.checks[j]? = some (.nested sid owned b) := by
    intro j sid owned busy hj
    rw [Array.getElem?_setIfInBounds] at hj
    split at hj
    · rename_i hij
      subst hij
      split at hj
      · cases hj
        obtain ⟨b, rfl⟩ := hc sid owned busy rfl
        exact ⟨b, hi⟩
      · cases hj
    · exact ⟨busy, hj⟩
  refine ⟨fun j sid owned busy hj => ?_, fun j k sid sid' owned busy busy' hj hk => ?_, h.keyed,
    h.named⟩
  · obtain ⟨b, hb⟩ := hback j sid owned busy hj
    exact h.owned j sid owned b hb
  · obtain ⟨b, hb⟩ := hback j sid owned busy hj
    obtain ⟨b', hb'⟩ := hback k sid' owned busy' hk
    exact h.unique j k sid sid' owned b b' hb hb'

/-- Adding a schema whose fields are named after their validators. -/
theorem push_schema (h : s.Coherent) {x : Schema}
    (hx : ∀ f ∈ x.fields, f.2.validator.field = some f.1) :
    { s with schemas := s.schemas.push x }.Coherent where
  owned := h.owned
  unique := h.unique
  keyed := h.keyed
  named sid sch hsch := by
    rw [Array.getElem?_push] at hsch
    split at hsch
    · cases hsch
      exact hx
    · exact h.named sid sch hsch

/-- Changing a schema to one whose fields are named after their validators. -/
theorem set_schema (h : s.Coherent) {j : Nat} {x : Schema}
    (hx : ∀ f ∈ x.fields, f.2.validator.field = some f.1) :
    { s with schemas := s.schemas.setIfInBounds j x }.Coherent where
  owned := h.owned
  unique := h.unique
  keyed := h.keyed
  named sid sch hsch := by
    rw [Array.getElem?_setIfInBounds] at hsch
    split at hsch
    · split at hsch
      · cases hsch
        exact hx
      · cases hsch
    · exact h.named sid sch hsch

/-- A context's messages are keyed, read through a handle. -/
theorem keyed_at (h : s.Coherent) (j : Nat) : Messages.Keyed (at! s.contexts j).messages := by
  rcases hj : s.contexts[j]? with _ | cx
  · rw [show at! s.contexts j = default by simp [at!, hj]]
    exact Messages.Keyed.nil
  · rw [at!_of_getElem? hj]
    exact h.keyed j cx hj

/-- The fields of a schema read through a handle are named after their validators. -/
theorem named_at (h : s.Coherent) (sid : Nat) :
    ∀ f ∈ (at! s.schemas sid).fields, f.2.validator.field = some f.1 := by
  rcases hs : s.schemas[sid]? with _ | sch
  · rw [show at! s.schemas sid = default by simp [at!, hs]]
    exact fun f hf => absurd hf List.not_mem_nil
  · rw [at!_of_getElem? hs]
    exact h.named sid sch hs

end Coherent

/-- A nested check added with the context it owns. -/
theorem coherent_push_nested {s : Store} (h : s.Coherent) (sid : Nat) :
    { s with contexts := s.contexts.push { schema := sid },
             checks := s.checks.push (.nested sid s.contexts.size false) }.Coherent where
  owned i sid' owned busy hi := by
    rw [Array.getElem?_push] at hi
    split at hi
    · cases hi
      exact ⟨{ schema := sid }, Array.getElem?_push_size, rfl⟩
    · obtain ⟨cx, hcx, hsid⟩ := h.owned i sid' owned busy hi
      exact ⟨cx, getElem?_push_of_eq hcx, hsid⟩
  unique i j sid₁ sid₂ owned busy busy' hi hj := by
    rw [Array.getElem?_push] at hi hj
    split at hi <;> split at hj
    · omega
    · -- an older check owns a context older than the new one
      cases hi
      exact absurd (h.owned_lt hj) (by omega)
    · cases hj
      exact absurd (h.owned_lt hi) (by omega)
    · exact h.unique i j sid₁ sid₂ owned busy busy' hi hj
  keyed j cx hj := by
    rw [Array.getElem?_push] at hj
    split at hj
    · cases hj
      exact Messages.Keyed.nil
    · exact h.keyed j cx hj
  named := h.named

theorem adds_push_nested (s : Store) (sid : Nat) :
    s.Adds { s with contexts := s.contexts.push { schema := sid },
                    checks := s.checks.push (.nested sid s.contexts.size false) } :=
  ⟨fun _ _ h => h, fun _ _ h => getElem?_push_of_eq h, fun _ _ h => getElem?_push_of_eq h,
    fun i sid' owned busy hi h => by
      rw [Array.getElem?_push] at h
      split at h
      · cases h
        exact le_rfl
      · exact absurd (Array.getElem?_eq_some_iff.mp h).1 (by omega)⟩

theorem adds_push_check (s : Store) {c : Check}
    (hc : ∀ sid owned busy, c ≠ .nested sid owned busy) :
    s.Adds { s with checks := s.checks.push c } :=
  ⟨fun _ _ h => h, fun _ _ h => h, fun _ _ h => getElem?_push_of_eq h,
    fun i sid owned busy hi h => by
      rw [Array.getElem?_push] at h
      split at h
      · cases h
        exact absurd rfl (hc _ _ _)
      · exact absurd (Array.getElem?_eq_some_iff.mp h).1 (by omega)⟩

theorem adds_push_context (s : Store) (c : Context) :
    s.Adds { s with contexts := s.contexts.push c } :=
  ⟨fun _ _ h => h, fun _ _ h => getElem?_push_of_eq h, fun _ _ h => h,
    fun _ _ _ _ hi h => absurd (Array.getElem?_eq_some_iff.mp h).1 (Nat.not_lt.mpr hi)⟩

theorem adds_push_schema (s : Store) (x : Schema) :
    s.Adds { s with schemas := s.schemas.push x } :=
  ⟨fun _ _ h => getElem?_push_of_eq h, fun _ _ h => h, fun _ _ h => h,
    fun _ _ _ _ hi h => absurd (Array.getElem?_eq_some_iff.mp h).1 (Nat.not_lt.mpr hi)⟩

/-- Changing a schema that `s` did not have yet. -/
theorem Adds.set_schema {s t : Store} (h : s.Adds t) {j : Nat} (hj : s.schemas.size ≤ j)
    (x : Schema) : s.Adds { t with schemas := t.schemas.setIfInBounds j x } := by
  refine ⟨fun i y hy => ?_, h.contexts, h.checks, h.fresh⟩
  have hij : j ≠ i := by
    have := (Array.getElem?_eq_some_iff.mp hy).1
    omega
  rw [Array.getElem?_setIfInBounds_ne hij]
  exact h.schemas i y hy

end Store


/-! ### Properties a computation keeps -/

/-- Run from `s`, `m` keeps the property `P` of the store, whether it answers or raises. -/
def Stays {α : Type} (P : Store → Prop) (m : Run α) (s : Store) : Prop := P s → P (m.run.run s).2

namespace Stays

variable {α β : Type} {P : Store → Prop} {s : Store}

theorem of_run {m : Run α} {r : Except Fault α} {t : Store} (h : m.run.run s = (r, t))
    (hP : P s → P t) : Stays P m s := by
  intro hs
  rw [h]
  exact hP hs

theorem pure (a : α) : Stays P (Pure.pure a : Run α) s := of_run rfl id

theorem throw (e : Fault) : Stays P (MonadExcept.throw e : Run α) s := of_run rfl id

theorem read (f : Store → α) : Stays P (Store.read f) s := of_run rfl id

/-- The rule for sequencing: the rest of the block keeps `P` from wherever the first step
answered. -/
theorem bind {x : Run α} {f : α → Run β} (hx : Stays P x s)
    (hf : ∀ a t, x.run.run s = (.ok a, t) → Stays P (f a) t) : Stays P (x >>= f) s := by
  intro hs
  rw [Run.run_bind]
  rcases h : x.run.run s with ⟨r, t⟩
  have ht : P t := by simpa [h] using hx hs
  cases r with
  | ok a => exact hf a t h ht
  | error e => exact ht

theorem tryCatch {x : Run α} {h : Fault → Run α} (hx : Stays P x s)
    (hh : ∀ e t, x.run.run s = (.error e, t) → Stays P (h e) t) : Stays P (tryCatch x h) s := by
  intro hs
  rw [Run.run_tryCatch]
  rcases hr : x.run.run s with ⟨r, t⟩
  have ht : P t := by simpa [hr] using hx hs
  cases r with
  | ok a => exact ht
  | error e => exact hh e t hr ht

end Stays


/-! ### Computations that only add objects -/

/-- `m` only adds objects to a coherent store, and keeps it coherent. -/
class Adding {α : Type} (m : Run α) : Prop where
  adds : ∀ s : Store, s.Coherent → (m.run.run s).2.Coherent ∧ s.Adds (m.run.run s).2

namespace Adding

variable {α β : Type}

/-- What `m` keeps, read as a property of the stores reached from `s₀`. -/
theorem stays {m : Run α} (hm : Adding m) (s₀ s : Store) :
    Stays (fun u => u.Coherent ∧ s₀.Adds u) m s := by
  rintro ⟨hs, h₀⟩
  obtain ⟨ht, hst⟩ := hm.adds s hs
  exact ⟨ht, h₀.trans hst⟩

/-- Sequencing after a step that only adds. -/
theorem stays_bind {x : Run α} {f : α → Run β} [hx : Adding x] {s₀ s : Store}
    (hf : ∀ a t, x.run.run s = (.ok a, t) → Stays (fun u => u.Coherent ∧ s₀.Adds u) (f a) t) :
    Stays (fun u => u.Coherent ∧ s₀.Adds u) (x >>= f) s :=
  Stays.bind (hx.stays s₀ s) hf

/-- A computation that keeps "coherent and added to since `s`", from every `s`, only adds. -/
theorem of_stays {m : Run α} (h : ∀ s₀ s : Store, Stays (fun u => u.Coherent ∧ s₀.Adds u) m s) :
    Adding m :=
  ⟨fun s hs => h s s ⟨hs, .refl s⟩⟩

/-- A computation that leaves the schemas, contexts and checks as they were. -/
theorem of_same {m : Run α}
    (h : ∀ s : Store, (m.run.run s).2.schemas = s.schemas ∧ (m.run.run s).2.contexts = s.contexts ∧
      (m.run.run s).2.checks = s.checks) : Adding m :=
  ⟨fun s hs => by
    obtain ⟨h₁, h₂, h₃⟩ := h s
    exact ⟨hs.of_same h₁ h₂ h₃, .of_same h₁ h₂ h₃⟩⟩

instance of_pure (a : α) : Adding (pure a : Run α) := of_same fun _ => ⟨rfl, rfl, rfl⟩

instance of_throw (e : Fault) : Adding (throw e : Run α) := of_same fun _ => ⟨rfl, rfl, rfl⟩

instance of_read (f : Store → α) : Adding (Store.read f) := of_same fun _ => ⟨rfl, rfl, rfl⟩

instance bind {x : Run α} {f : α → Run β} [hx : Adding x] [hf : ∀ a, Adding (f a)] :
    Adding (x >>= f) :=
  of_stays fun s₀ s => Stays.bind (hx.stays s₀ s) fun a _ _ => (hf a).stays s₀ _

instance of_ite {c : Prop} [Decidable c] {x y : Run α} [Adding x] [Adding y] :
    Adding (if c then x else y) := by
  split <;> infer_instance

instance mapM {f : α → Run β} [∀ a, Adding (f a)] : ∀ xs : List α, Adding (xs.mapM f)
  | [] => of_pure []
  | x :: xs => by
    rw [List.mapM_cons]
    have := mapM (f := f) xs
    infer_instance

instance of_lift (r : Except Fault α) : Adding (Rule.lift r) := by
  cases r <;> exact of_same fun _ => ⟨rfl, rfl, rfl⟩

instance of_naming : Adding Store.naming := of_same fun _ => ⟨rfl, rfl, rfl⟩

instance of_schema (id : Nat) : Adding (Store.schema id) := of_same fun _ => ⟨rfl, rfl, rfl⟩

instance of_context (id : Nat) : Adding (Store.context id) := of_same fun _ => ⟨rfl, rfl, rfl⟩

instance of_check (id : Nat) : Adding (Store.check id) := of_same fun _ => ⟨rfl, rfl, rfl⟩

instance of_union (id : Nat) : Adding (Store.union id) := of_same fun _ => ⟨rfl, rfl, rfl⟩

instance of_array (id : Nat) : Adding (Store.array id) := of_same fun _ => ⟨rfl, rfl, rfl⟩

instance of_lazyTag (id : Nat) : Adding (Store.lazyTag id) := of_same fun _ => ⟨rfl, rfl, rfl⟩

instance of_schemaNamed (name : String) : Adding (Store.schemaNamed? name) :=
  of_same fun _ => ⟨rfl, rfl, rfl⟩

instance of_registryNamed (name : String) : Adding (Store.registryNamed? name) :=
  of_same fun _ => ⟨rfl, rfl, rfl⟩

instance of_plain (v : Value) : Adding (Store.plain v) := of_same fun _ => ⟨rfl, rfl, rfl⟩

instance of_shown (v : Value) : Adding (Store.shown v) := of_same fun _ => ⟨rfl, rfl, rfl⟩

instance of_tagName (t : Tag) : Adding (Store.tagName t) := of_same fun _ => ⟨rfl, rfl, rfl⟩

instance of_addArray (a : ArrayTag) : Adding (Store.addArray a) :=
  of_same fun _ => ⟨rfl, rfl, rfl⟩

instance of_addUnion (u : UnionTag) : Adding (Store.addUnion u) :=
  of_same fun _ => ⟨rfl, rfl, rfl⟩

instance of_addLazy (l : LazyTag) : Adding (Store.addLazy l) :=
  of_same fun _ => ⟨rfl, rfl, rfl⟩

instance of_setLazy (id : Nat) (l : LazyTag) : Adding (Store.setLazy id l) :=
  of_same fun _ => ⟨rfl, rfl, rfl⟩

instance of_freshForeign : Adding Store.freshForeign := of_same fun _ => ⟨rfl, rfl, rfl⟩

instance of_create (sid : Nat) : Adding (Context.create sid) :=
  ⟨fun s hs => ⟨hs.push_context Messages.Keyed.nil, Store.adds_push_context s _⟩⟩

/-- Adding a check that is not a nested-schema check. -/
theorem of_addCheck {c : Check} (hc : ∀ sid owned busy, c ≠ .nested sid owned busy) :
    Adding (Store.addCheck c) :=
  ⟨fun s hs => ⟨hs.push_check hc, Store.adds_push_check s hc⟩⟩

/-- Adding a nested-schema check with a fresh context of its own. -/
theorem of_addNested (sid : Nat) :
    Adding (Context.create sid >>= fun owned => Store.addCheck (.nested sid owned false)) :=
  ⟨fun s hs => ⟨Store.coherent_push_nested hs sid, Store.adds_push_nested s sid⟩⟩

end Adding

end Schematic
