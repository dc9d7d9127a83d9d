import Mathlib
import Schematic.Proofs.Refusal

/-!
# Batch results and contexts agree

Validating a record as a batch result runs every field validator with no context; validating it
in a context runs them with that context, into which nested schemas copy their messages. The
codes are the same either way: a field's code does not depend on the context it is given, and a
validator given no context writes into no caller's context.

The proof is a simulation (`RunSim`): a run into context `c`, from a store `s`, is followed step
by step by the same run with no context, from a store that differs from `s` in context `c`
alone (`Store.Off`). Everything but the copying of nested messages into `c` commutes with the
patch of `c` (`Commutes`); the copying changes `c` alone. The batch result gives each validator
the whole depth, so the simulation also allows the run without a context more depth.

A check copies messages into its caller's context only when it answers `invalid`
(`Answer.invalid_of_copies`), so the context's map ends empty exactly when no field has a
text code and no key was marked.
-/

namespace Schematic

/-! ### Copies come with `invalid` -/

section Copies

variable {w : Store → Prop}

/-- An array that has failed with `invalid` stays `invalid`, whatever its next element answers. -/
theorem invalid_worst (code : Value) : Run.worst Run.invalid code = Run.invalid := by
  unfold Run.worst
  split <;> simp [Run.invalid, Value.same]

theorem worst_invalid (failed : Value) : Run.worst failed Run.invalid = Run.invalid := by
  simp [Run.worst, Run.invalid, Value.same, Value.truthy]

/-- Once an array has failed with `invalid`, it answers `invalid`. -/
theorem Each.invalid_of_failed {e : Nat} {path : String} :
    ∀ {xs : List Value} {i : Nat} {code : Value} {ws : List (String × String)},
      Each w e xs path i Run.invalid code ws → code = Run.invalid
  | [], _, _, _, .nil => rfl
  | _ :: _, _, _, _, .cons _ he => by
    rw [invalid_worst] at he
    exact Each.invalid_of_failed he

mutual

/-- **A check copies messages into its caller's context only when it answers `invalid`.** -/
theorem Answer.invalid_of_copies :
    ∀ {node : Nat} {v : Value} {path : String} {code : Value} {ws : List (String × String)},
      Answer w node v path code ws → ws ≠ [] → code = Run.invalid
  | _, _, _, _, _, .member _, h => absurd rfl h
  | _, _, _, _, _, .bounded _ _, h => absurd rfl h
  | _, _, _, _, _, .pass _, h => absurd rfl h
  | _, _, _, _, _, .union _ _, h => absurd rfl h
  | _, _, _, _, _, .notItems _ _, h => absurd rfl h
  | _, _, _, _, _, .tooShort _ _ _, h => absurd rfl h
  | _, _, _, _, _, .tooLong _ _ _ _, h => absurd rfl h
  | _, _, _, _, _, .array _ _ _ _ he, h => Each.invalid_of_copies he h
  | _, _, _, _, _, .notMapping _ _, h => absurd rfl h
  | _, _, _, _, _, .nested _ _, h => by
    -- an empty nested map is copied as nothing
    split
    · rename_i hm
      simp [List.isEmpty_iff.mp hm, Messages.copies] at h
    · rfl
  | _, _, _, _, _, .lazy _ ha, h => Answer.invalid_of_copies ha h
  | _, _, _, _, _, .custom _ ha _, h => Answer.invalid_of_copies ha h
  | _, _, _, _, _, .rule _ ha hc _, h => by
    have := Answer.invalid_of_copies ha h
    subst this
    simp [Run.invalid, Value.truthy] at hc

/-- An array copies messages only when it answers `invalid`. -/
theorem Each.invalid_of_copies {e : Nat} {path : String} :
    ∀ {xs : List Value} {i : Nat} {failed code : Value} {ws : List (String × String)},
      Each w e xs path i failed code ws → ws ≠ [] → code = Run.invalid
  | [], _, _, _, _, .nil, h => absurd rfl h
  | _ :: _, _, failed, _, _, @Each.cons _ _ _ _ _ _ _ _ ws _ _ ha he, h => by
    by_cases hws : ws = []
    · subst hws
      exact Each.invalid_of_copies he (by simpa using h)
    · rw [Answer.invalid_of_copies ha hws, worst_invalid] at he
      exact Each.invalid_of_failed he

end

/-- A field copies messages only when it answers `invalid`. -/
theorem ValidatorAnswer.invalid_of_copies {val : Validator} {v : Value} {path : String}
    {code : Value} {ws : List (String × String)} (h : ValidatorAnswer w val v path code ws)
    (hws : ws ≠ []) : code = Run.invalid := by
  cases h with
  | missing => exact absurd rfl hws
  | null => exact absurd rfl hws
  | checked _ _ _ ha => exact Answer.invalid_of_copies ha hws

/-- Fields none of which answers with text copy nothing. -/
theorem FieldAnswers.copies_nil {es : List (Value × Value)} {fs : List (String × Field)} :
    ∀ {codes : List (String × Value)} {ws : List (String × String)},
      FieldAnswers w fs es codes ws → (∀ x ∈ codes, Run.codeText x.2 = none) → ws = [] := by
  -- the derivation follows the fields, so the induction is on them
  induction fs with
  | nil =>
    intro _ _ h _
    cases h
    rfl
  | cons field rest ih =>
    intro _ _ h hcodes
    cases h with
    | cons hv hr =>
      rename_i code ws codes ws'
      have hws : ws = [] := by
        by_contra hne
        have := hcodes _ List.mem_cons_self
        rw [ValidatorAnswer.invalid_of_copies hv hne] at this
        simp [Run.codeText, Run.invalid] at this
      rw [hws, ih hr fun x hx => hcodes x (List.mem_cons_of_mem _ hx)]
      rfl

end Copies

/-! ### Stores that differ in one context -/

namespace Store

/-- `s` is `b` with context `c`, which both hold, set to something: the two differ in context
`c` alone. -/
def Off (c : Nat) (b s : Store) : Prop :=
  ∃ x, c < b.contexts.size ∧ s = (Patch.context c x).apply b

namespace Off

variable {c : Nat} {b s : Store}

/-- A store differs from itself in any context it holds. -/
theorem self (hc : c < s.contexts.size) : Off c s s := by
  refine ⟨s.contexts[c], hc, ?_⟩
  simp only [Patch.apply, Array.setIfInBounds, hc, dif_pos, Array.set_getElem_self]

theorem lt (h : Off c b s) : c < s.contexts.size := by
  obtain ⟨x, hc, rfl⟩ := h
  simpa [Patch.apply] using hc

/-- Setting context `c` again keeps the two stores apart in `c` alone. -/
theorem patch (h : Off c b s) (y : Context) : Off c b ((Patch.context c y).apply s) := by
  obtain ⟨x, hc, rfl⟩ := h
  exact ⟨y, hc, by simp [Patch.apply, Array.setIfInBounds_setIfInBounds]⟩

theorem withMessages (h : Off c b s) (m : List (String × String)) :
    Off c b (s.withMessages c m) :=
  h.patch _

/-- The two stores have the same checks. -/
theorem checks (h : Off c b s) : s.checks = b.checks := by
  obtain ⟨x, -, rfl⟩ := h
  rfl

theorem schemas (h : Off c b s) : s.schemas = b.schemas := by
  obtain ⟨x, -, rfl⟩ := h
  rfl

/-- Every other context is the same in both. -/
theorem context_ne (h : Off c b s) {j : Nat} (hj : j ≠ c) : s.contexts[j]? = b.contexts[j]? := by
  obtain ⟨x, -, rfl⟩ := h
  exact Array.getElem?_setIfInBounds_ne (Ne.symm hj)

theorem schemaNameIn (h : Off c b s) (id : Nat) : s.schemaNameIn id = b.schemaNameIn id := by
  obtain ⟨x, -, rfl⟩ := h
  rfl

theorem at_ne (h : Off c b s) {j : Nat} (hj : j ≠ c) :
    Store.at! s.contexts j = Store.at! b.contexts j := by
  simp only [Store.at!, h.context_ne hj]

/-- A computation that commutes with every setting of context `c` runs alike on both stores. -/
theorem run {α : Type} {m : Run α} (hm : ∀ x, Commutes (.context c x) m) (h : Off c b s) :
    (m.run.run s).1 = (m.run.run b).1 ∧ Off c (m.run.run b).2 (m.run.run s).2 := by
  obtain ⟨x, hc, rfl⟩ := h
  obtain ⟨hfit, hrun⟩ := (hm x).comm b hc
  rw [hrun]
  exact ⟨rfl, x, hfit, rfl⟩

/-- A step that commutes with the patch, answered on `s`, answers the same on `b`. -/
theorem step {α : Type} {m : Run α} (hm : ∀ x, Commutes (.context c x) m) (h : Off c b s)
    {a : α} {t : Store} (hs : m.run.run s = (.ok a, t)) :
    ∃ u, m.run.run b = (.ok a, u) ∧ Off c u t := by
  obtain ⟨h₁, h₂⟩ := h.run hm
  rw [hs] at h₁ h₂
  exact ⟨(m.run.run b).2, Prod.ext h₁.symm rfl, h₂⟩

end Off

end Store

/-! ### Contexts other than the patched one -/

namespace Commutes

variable {c j : Nat} (x : Context)

theorem of_context_ne (hj : j ≠ c) : Commutes (.context c x) (Store.context j) :=
  of_read _ fun _ _ => by
    simp only [Store.Patch.apply, Store.at!, Array.getElem?_setIfInBounds_ne hj.symm]

theorem of_setContext_ne (hj : j ≠ c) (y : Context) :
    Commutes (.context c x) (Store.setContext j y) := by
  refine of_change _ fun s h => ⟨?_, ?_⟩
  · show c < (s.contexts.setIfInBounds j y).size
    rw [Array.size_setIfInBounds]
    exact h
  · show { s with contexts := (s.contexts.setIfInBounds c x).setIfInBounds j y } =
      { s with contexts := (s.contexts.setIfInBounds j y).setIfInBounds c x }
    congr 1
    ext i hi₁ hi₂
    · simp only [Array.size_setIfInBounds]
    · grind

theorem of_setMessages_ne (hj : j ≠ c) (m : List (String × String)) :
    Commutes (.context c x) (Context.setMessages j m) := by
  have := of_context_ne x hj
  have := of_setContext_ne x hj
  unfold Context.setMessages
  infer_instance

theorem of_setMessage_ne (hj : j ≠ c) (f m : Value) :
    Commutes (.context c x) (Context.setMessage j f m) := by
  have := of_context_ne x hj
  have := of_setMessages_ne x hj
  unfold Context.setMessage Context.hasField
  dsimp only
  split
  · refine @Commutes.bind _ _ _ _ _ inferInstance fun b => ?_
    split
    · infer_instance
    · split <;> infer_instance
  · infer_instance

theorem of_apply_ne (hj : j ≠ c) (results : List (String × Value)) :
    Commutes (.context c x) (Run.apply j results) := by
  have := of_context_ne x hj
  have := of_setMessages_ne x hj
  unfold Run.apply
  infer_instance

/-- Ending a nested check that copies into a context other than `c`, or into none. -/
theorem of_release_ne {ctx : Option Nat} (hctx : ∀ j, ctx = some j → j ≠ c) {nested : Nat}
    (hnested : nested ≠ c) (node : Nat) (reentrant : Bool) (path : String) (valid : Value) :
    Commutes (.context c x) (Run.release node reentrant ctx path nested valid) := by
  have := of_context_ne x hnested
  unfold Run.release
  refine @Commutes.bind _ _ _ _ _ inferInstance fun _ => ?_
  split
  · infer_instance
  · rcases ctx with _ | j
    · dsimp only
      infer_instance
    · have := of_setMessage_ne x (hctx j rfl)
      dsimp only
      infer_instance

end Commutes

namespace Store.Off

variable {c : Nat} {b s : Store}

/-- Setting a message of context `c` changes context `c` alone. -/
theorem setMessage (h : Off c b s) (f m : Value) :
    Off c b ((Context.setMessage c f m).run.run s).2 := by
  unfold Context.setMessage
  split
  · rw [Run.run_bind, Context.hasField_run]
    dsimp only
    split
    · exact h
    · -- every answer writes context `c`'s messages; a refused message leaves the store
      split
      · rw [Run.run_bind_of_eq (Store.run_context _ _)]
        split <;> exact h.withMessages _
      · split
        · exact h
        · rw [Run.run_bind_of_eq (Store.run_context _ _)]
          exact h.withMessages _
  · exact h

/-- Copying a map into context `c` changes context `c` alone, however far it gets. -/
theorem copy (path : String) :
    ∀ (m : List (String × String)) {s : Store}, Off c b s →
      Off c b ((forIn m PUnit.unit fun (x : String × String) _ => do
        Context.setMessage c (.str (path ++ "." ++ x.1)) (.str x.2)
        pure (ForInStep.yield PUnit.unit)).run.run s).2
  | [], _, h => h
  | e :: m, s, h => by
    rw [List.forIn_cons, Run.run_bind, Run.run_bind]
    have hset := h.setMessage (.str (path ++ "." ++ e.1)) (.str e.2)
    rcases hr : (Context.setMessage c (.str (path ++ "." ++ e.1)) (.str e.2)).run.run s with
      ⟨_ | _, t⟩
    all_goals rw [hr] at hset
    · exact hset
    · exact copy path m hset

end Store.Off

/-! ### The start of a run of a context -/

/-- The store a run of context `ctx` on `es` runs its fields from: the context keeps the entries
of its schema's fields under the `notInSchema` marks of the keys that name no field, and no
hooks. -/
def Store.marked (s : Store) (ctx : Nat) (es : List (Value × Value)) : Store :=
  let cx := Store.at! s.contexts ctx
  let names := Store.fieldNamesIn s cx.schema
  { s with
    contexts := s.contexts.setIfInBounds ctx
      { schema := cx.schema
        messages := Messages.putAll (Messages.notIn (Store.namingIn s) names es)
          (cx.messages.filter fun x => names.contains x.1) } }

/-- A run of a context on a mapping marks the keys that name no field, then runs the fields. -/
theorem Run.start_dict (d ctx : Nat) (es : List (Value × Value)) (s : Store) :
    (Run.start (d + 1) ctx (.dict es)).run.run s =
      (Run.fields (fun val x => Run.validator d val x (some ctx)) es
        (Store.at! s.schemas (Store.at! s.contexts ctx).schema).fields).run.run (s.marked ctx es) := by
  rw [Run.start.eq_2, Run.run_bind_of_eq (Store.run_context _ _)]
  dsimp only
  rw [Run.run_bind_of_eq (Run.run_pure _ _), Run.run_bind_of_eq (Store.run_schema _ _)]
  -- marking the keys that name no field only reads the store
  rw [Run.run_bind_of_eq (forIn_run _ (fun x m =>
    if (!namesField ((Store.at! s.schemas (Store.at! s.contexts ctx).schema).fields.map (·.1))
      x.1) = true then Messages.put (x.1.plain (Store.namingIn s)) "notInSchema" m else m) s
    (fun x m => by split <;> rfl) es _)]
  rw [Messages.foldl_marks, Run.run_bind_of_eq (Store.run_setContext _ _ _)]
  rfl

/-- Marking the keys of a run keeps a coherent store coherent and changes the run's own context
alone. -/
theorem Store.Keeps.marked {s : Store} (hs : s.Coherent) {ctx : Nat} (hctx : ctx < s.contexts.size)
    (es : List (Value × Value)) : s.Keeps (some ctx) (s.marked ctx es) :=
  .set_context hs hctx rfl (((hs.keyed_at ctx).filter _).putAll _)

/-- Marking another context keeps two stores apart in context `c` alone. -/
theorem Store.Off.marked {c : Nat} {b s : Store} (h : Store.Off c b s) {ctx : Nat} (hctx : ctx ≠ c)
    (es : List (Value × Value)) : Store.Off c (b.marked ctx es) (s.marked ctx es) := by
  obtain ⟨x, hc, rfl⟩ := h
  refine ⟨x, by simpa [Store.marked] using hc, ?_⟩
  have hat : Store.at! (b.contexts.setIfInBounds c x) ctx = Store.at! b.contexts ctx := by
    simp only [Store.at!, Array.getElem?_setIfInBounds_ne hctx.symm]
  simp only [Store.marked, Store.Patch.apply, hat]
  rw [Array.setIfInBounds_comm _ _ hctx.symm]
  rfl

/-! ### Runs that follow one another outside one context -/

namespace Run

/-- The context a run without context `c` passes where a run into `c` passes `ctx`. -/
def detach (c : Nat) (ctx : Option Nat) : Option Nat := if ctx = some c then none else ctx

/-- An answer given at once. -/
def Now (o : Outcome) : Prop := Outcome.isLater o = false

/-- Results all given at once. -/
def AllNow (rs : List (String × Outcome)) : Prop := ∀ x ∈ rs, Outcome.isLater x.2 = false

@[simp] theorem now_now (code : Value) : Now (.now code) := rfl

@[simp] theorem not_now_later (k : Coro) : ¬Now (.later k) := by simp [Now, Outcome.isLater]

theorem Now.exists {o : Outcome} (h : Now o) : ∃ code, o = .now code := by
  rcases o with code | k
  · exact ⟨code, rfl⟩
  · exact absurd h (not_now_later k)

end Run

/-- `m₂` follows `m₁` outside context `c` from `s`: run from a store that differs from `s` in
context `c` alone, `m₂` gives every answer of `m₁` that `R` accepts, and the two stores they
leave differ in context `c` alone. -/
def Follows {α : Type} (c : Nat) (R : α → Prop) (m₁ m₂ : Run α) (s : Store) : Prop :=
  ∀ b, Store.Off c b s → Yields m₁ s fun a t => R a →
    ∃ u, m₂.run.run b = (.ok a, u) ∧ Store.Off c u t

namespace Follows

variable {c : Nat} {α β : Type} {s : Store}

/-- A step that commutes with every setting of context `c` follows itself. -/
theorem of_commutes {R : α → Prop} {m : Run α} (hm : ∀ x, Commutes (.context c x) m) :
    Follows c R m m s :=
  fun _ hb _ _ ht _ => hb.step hm ht

theorem mono {R R' : α → Prop} {m₁ m₂ : Run α} (h : Follows c R m₁ m₂ s) (hr : ∀ a, R' a → R a) :
    Follows c R' m₁ m₂ s :=
  fun b hb a t ht ha => h b hb a t ht (hr a ha)

/-- The rule for sequencing. The first steps are followed on the answers `R₁` accepts; on any
other answer the rest of the block gives no answer that `R` accepts. -/
theorem bind {R₁ : α → Prop} {R : β → Prop} {x₁ x₂ : Run α} {f₁ f₂ : α → Run β}
    (hx : Follows c R₁ x₁ x₂ s)
    (hf : Yields x₁ s fun a t => (R₁ a → Follows c R (f₁ a) (f₂ a) t) ∧
      (¬R₁ a → Yields (f₁ a) t fun r _ => ¬R r)) :
    Follows c R (x₁ >>= f₁) (x₂ >>= f₂) s := by
  intro b hb r u hu hr
  obtain ⟨a, t, h₁, h₂⟩ := Run.ok_of_bind hu
  obtain ⟨hyes, hno⟩ := hf a t h₁
  by_cases ha : R₁ a
  · obtain ⟨u₁, hb₁, hoff⟩ := hx b hb a t h₁ ha
    obtain ⟨u₂, hb₂, hoff₂⟩ := hyes ha u₁ hoff r u h₂ hr
    exact ⟨u₂, by rw [Run.run_bind_of_eq hb₁, hb₂], hoff₂⟩
  · exact absurd hr (hno ha r u h₂)

/-- Sequencing after steps followed on every answer. -/
theorem bind_all {R : β → Prop} {x₁ x₂ : Run α} {f₁ f₂ : α → Run β}
    (hx : Follows c (fun _ => True) x₁ x₂ s)
    (hf : Yields x₁ s fun a t => Follows c R (f₁ a) (f₂ a) t) :
    Follows c R (x₁ >>= f₁) (x₂ >>= f₂) s :=
  bind hx fun a t ht => ⟨fun _ => hf a t ht, fun h => absurd trivial h⟩

/-- Sequencing after a step whose later answers make the block answer later: the rest is
followed wherever the step answered at once. -/
theorem bind_now {R : β → Prop} {x₁ x₂ : Run Outcome} {f₁ f₂ : Outcome → Run β}
    (hx : Follows c Run.Now x₁ x₂ s)
    (hlater : ∀ k t, Yields (f₁ (.later k)) t fun r _ => ¬R r)
    (hnow : Yields x₁ s fun o t => ∀ code, o = .now code → Follows c R (f₁ o) (f₂ o) t) :
    Follows c R (x₁ >>= f₁) (x₂ >>= f₂) s := by
  refine bind hx fun o t ht => ⟨fun _ => ?_, fun hl => ?_⟩
  · rcases o with code | k
    · exact hnow _ t ht code rfl
    · exact absurd ‹_› (Run.not_now_later k)
  · rcases o with code | k
    · exact absurd (Run.now_now code) hl
    · exact hlater k t

/-- Ending a nested check: into context `c` it copies into `c` alone, which the end of the
check without a context does not; into any other context both write alike. -/
theorem release {R : Outcome → Prop} (node : Nat) (reentrant : Bool) (ctx : Option Nat)
    (path : String) {nested : Nat} (hnested : nested ≠ c) (valid : Value) :
    Follows c R (Run.release node reentrant ctx path nested valid)
      (Run.release node reentrant (Run.detach c ctx) path nested valid) s := by
  by_cases hc : ctx = some c
  · subst hc
    rw [Run.detach, if_pos rfl]
    unfold Run.release
    refine bind_all (of_commutes fun _ => inferInstance) fun _ t _ => ?_
    split
    · exact of_commutes fun _ => inferInstance
    dsimp only
    intro b hb o u hu _
    split at hu
    · -- the nested messages are copied into `c`, which changes `c` alone
      rw [Run.run_bind_of_eq (Store.run_context _ _), Run.run_bind] at hu
      have hcopy := hb.copy path (Store.at! t.contexts nested).messages
      rcases hl : (forIn (Store.at! t.contexts nested).messages PUnit.unit
          fun (x : String × String) _ => do
            Context.setMessage c (.str (path ++ "." ++ x.1)) (.str x.2)
            pure (ForInStep.yield PUnit.unit)).run.run t with ⟨_ | _, t'⟩
      all_goals rw [hl] at hu hcopy
      · cases hu
      · cases hu
        exact ⟨b, rfl, hcopy⟩
    · cases hu
      exact ⟨b, rfl, hb⟩
  · rw [Run.detach, if_neg hc]
    exact of_commutes fun x => Commutes.of_release_ne x (fun j hj h => hc (by rw [hj, h])) hnested
      node reentrant path valid

end Follows

/-! ### The simulation -/

/-- A run of a context refuses a value that is not a mapping, once it has the depth to start. -/
theorem Run.context_refuses {v : Value} (hv : ∀ es, v ≠ .dict es) (d ctx : Nat) (s : Store) :
    (Run.context (d + 2) ctx v).run.run s =
      (.error (.notMapping (Store.schemaNameIn s (Store.at! s.contexts ctx).schema) v.typeName), s) := by
  rw [Run.context.eq_2, Run.run_bind, Run.start_notMapping d ctx hv s]

/-- Without the depth to start, a run of a context fails at once. -/
theorem Run.context_limit {d : Nat} (hd : d < 2) (ctx : Nat) (v : Value) (s : Store) :
    (Run.context d ctx v).run.run s = (.error .recursionLimit, s) := by
  rcases d with _ | _ | d
  · rw [Run.context.eq_1]
    rfl
  · rw [Run.context.eq_2, Run.start.eq_1]
    rfl
  · omega

/-- Entering a nested check, read off the run of its first two steps. -/
theorem Run.Entered.of_run {s s₁ s₂ : Store} (hs : s.Coherent) {node sid owned : Nat}
    {busy : Bool} (hnode : s.checks[node]? = some (.nested sid owned busy)) {inner : Nat}
    (h₁ : (if busy = true then Context.create sid else pure owned : Run Nat).run.run s =
      (.ok inner, s₁))
    (h₂ : (Store.setCheck node (.nested sid owned true)).run.run s₁ = (.ok (), s₂)) :
    Run.Entered s node sid owned inner s₂ :=
  @Run.enter_bind Nat s node sid owned busy hs hnode pure (fun inner s₂ => Run.Entered s node sid
    owned inner s₂) (fun _ _ he => Yields.pure he) inner s₂ (by
    by_cases hb : busy = true
    · rw [if_pos hb] at h₁ ⊢
      rw [Run.run_bind_of_eq h₁, Run.run_bind_of_eq h₂]
      rfl
    · rw [if_neg hb] at h₁ ⊢
      rw [Run.run_bind_of_eq h₁, Run.run_bind_of_eq h₂]
      rfl)

namespace Run

@[simp] theorem detach_none (c : Nat) : detach c none = none := by simp [detach]

@[simp] theorem detach_self (c : Nat) : detach c (some c) = none := by simp [detach]

theorem detach_ne {c j : Nat} (h : j ≠ c) : detach c (some j) = some j := by simp [detach, h]

/-! #### The loops, followed when the call they repeat is -/

section Loops

variable {c : Nat}

/-- Trying union candidates is followed when each candidate's check is, and keeps the store
where a candidate answers at once. -/
theorem attempts_follows {run₁ run₂ : Nat → Run Outcome} {v : Value} {path : String}
    (hrun : ∀ node (s : Store), s.Coherent → s.Free c → Follows c Now (run₁ node) (run₂ node) s)
    (hkeep : ∀ node (s : Store), s.Coherent →
      Yields (run₁ node) s fun o t => ∀ code, o = .now code → s.Keeps .none t)
    (all rest : List (Option Bool × Nat)) :
    ∀ (i : Nat) (error : Value) (s : Store), s.Coherent → s.Free c →
      Follows c Now (attempts run₁ all v path i rest error) (attempts run₂ all v path i rest error)
        s := by
  induction rest with
  | nil =>
    intro i error s _ _
    rw [attempts.eq_1, attempts.eq_1]
    exact Follows.of_commutes fun _ => inferInstance
  | cons candidate more ih =>
    obtain ⟨nullable, node⟩ := candidate
    intro i error s hs hc
    rw [attempts.eq_def, attempts.eq_def]
    dsimp only
    -- once a candidate has answered, the rest of the union runs from the store it left
    have hnext : ∀ (code : Value) (t : Store), t.Coherent → t.Free c →
        Follows c Now (if (!code.truthy) = true then pure (.now .none)
          else attempts run₁ all v path (i + 1) more
            (if (!error.truthy && !code.same invalidType) = true then code else error))
          (if (!code.truthy) = true then pure (.now .none)
          else attempts run₂ all v path (i + 1) more
            (if (!error.truthy && !code.same invalidType) = true then code else error)) t := by
      intro code t ht hct
      split
      · exact Follows.of_commutes fun _ => inferInstance
      · exact ih (i + 1) _ t ht hct
    split
    · refine Follows.bind_now (Follows.of_commutes fun _ => inferInstance)
        (fun _ _ => Yields.pure (not_now_later _)) fun o t ho code hcode => ?_
      cases ho
      cases hcode
      exact hnext _ s hs hc
    · refine Follows.bind_now (hrun node s hs hc)
        (fun _ _ => Yields.pure (not_now_later _)) fun o t ho code hcode => ?_
      subst hcode
      have hk := hkeep node s hs _ t ho code rfl
      exact hnext code t hk.coherent (hk.free hc)

/-- Checking array elements is followed when the element check is at every element's path,
whatever context the follower's pending answers name. -/
theorem elements_follows {run₁ run₂ : Value → String → Run Outcome} {element : Nat}
    {ctx ctx₂ : Option Nat} {path : String}
    (hrun : ∀ x i (s : Store), s.Coherent → s.Free c → (∀ j, ctx = some j → s.Free j) →
      Follows c Now (run₁ x (elementPath path i)) (run₂ x (elementPath path i)) s)
    (hkeep : ∀ x i (s : Store), s.Coherent → (∀ j, ctx = some j → s.Free j) →
      Yields (run₁ x (elementPath path i)) s fun o t => ∀ code, o = .now code → s.Keeps ctx t)
    (items rest : List Value) :
    ∀ (i : Nat) (failed : Value) (s : Store), s.Coherent → s.Free c →
      (∀ j, ctx = some j → s.Free j) →
      Follows c Now (elements run₁ element items ctx path i rest failed)
        (elements run₂ element items ctx₂ path i rest failed) s := by
  induction rest with
  | nil =>
    intro i failed s _ _ _
    rw [elements.eq_1, elements.eq_1]
    exact Follows.of_commutes fun _ => inferInstance
  | cons x more ih =>
    intro i failed s hs hc hctx
    rw [elements.eq_2, elements.eq_2]
    refine Follows.bind_now (hrun x i s hs hc hctx)
      (fun _ _ => Yields.pure (not_now_later _)) fun o t ho code hcode => ?_
    subst hcode
    have hk := hkeep x i s hs hctx _ t ho code rfl
    exact ih (i + 1) _ t hk.coherent (hk.free hc) fun j hj => hk.free (hctx j hj)

/-- Running a schema's fields in a context other than `c` is followed when each validator is,
and a field answering later makes the list answer later. -/
theorem fields_follows {run₁ run₂ : Validator → Value → Run Outcome} {inner : Nat}
    (hrun : ∀ val x (s : Store), s.Coherent → s.Free c → s.Free inner →
      Follows c Now (run₁ val x) (run₂ val x) s)
    (hkeep : ∀ val x (s : Store), s.Coherent → s.Free inner →
      Yields (run₁ val x) s fun o t => ∀ code, o = .now code → s.Keeps (some inner) t)
    (es : List (Value × Value)) (fs : List (String × Field)) :
    ∀ s : Store, s.Coherent → s.Free c → s.Free inner →
      Follows c AllNow (fields run₁ es fs) (fields run₂ es fs) s := by
  induction fs with
  | nil =>
    intro s _ _ _
    rw [fields.eq_1, fields.eq_1]
    exact Follows.of_commutes fun _ => inferInstance
  | cons f rest ih =>
    intro s hs hc hfree
    rw [fields.eq_2, fields.eq_2]
    refine Follows.bind (hrun _ _ s hs hc hfree) fun o t ho => ⟨fun hnow => ?_, fun hlater => ?_⟩
    · -- the other fields run from where this one answered
      obtain ⟨code, rfl⟩ := hnow.exists
      have hk₁ := hkeep _ _ s hs hfree _ t ho code rfl
      refine Follows.bind (ih t hk₁.coherent (hk₁.free hc) (hk₁.free hfree)) fun rs u _ =>
        ⟨fun _ => Follows.of_commutes fun _ => inferInstance,
          fun hnot => Yields.pure fun hall => hnot fun x hx => hall x (List.mem_cons_of_mem _ hx)⟩
    · -- a field answering later makes the list answer later
      exact Yields.bind fun rs u _ => Yields.pure fun hall => hlater (hall _ List.mem_cons_self)

end Loops

/-- At depth `d`, every run into context `c`, from a coherent store in which `c` and the run's
own context are free, is followed on its answers given at once by the same run given no
context in place of `c` and any depth from `d` on. -/
structure RunSim (c d : Nat) : Prop where
  check : ∀ node v ctx path d', d ≤ d' → ∀ s : Store, s.Coherent → s.Free c →
    (∀ j, ctx = some j → s.Free j) →
    Follows c Now (check d node v ctx path) (check d' node v (detach c ctx) path) s
  context : ∀ inner es d', d ≤ d' → ∀ s : Store, s.Coherent → s.Free c → s.Free inner →
    inner ≠ c → Follows c Now (context d inner (.dict es)) (context d' inner (.dict es)) s
  start : ∀ inner es d', d ≤ d' → ∀ s : Store, s.Coherent → s.Free c → s.Free inner →
    inner ≠ c → Follows c AllNow (start d inner (.dict es)) (start d' inner (.dict es)) s
  validator : ∀ val v ctx d', d ≤ d' → ∀ s : Store, s.Coherent → s.Free c →
    (∀ j, ctx = some j → s.Free j) →
    Follows c Now (validator d val v ctx) (validator d' val v (detach c ctx)) s

namespace RunSim

variable {c d : Nat}

theorem zero : RunSim c 0 where
  check _ _ _ _ _ _ _ _ _ _ := by rw [Run.check.eq_1]; exact fun _ _ => Yields.throw _
  context _ _ _ _ _ _ _ _ _ := by rw [Run.context.eq_1]; exact fun _ _ => Yields.throw _
  start _ _ _ _ _ _ _ _ _ := by rw [Run.start.eq_1]; exact fun _ _ => Yields.throw _
  validator _ _ _ _ _ _ _ _ _ := by rw [Run.validator.eq_1]; exact fun _ _ => Yields.throw _

theorem validator_succ (ih : RunSim c d) (val : Validator) (v : Value) (ctx : Option Nat)
    {k : Nat} (hk : d ≤ k) (s : Store) (hs : s.Coherent) (hc : s.Free c)
    (hctx : ∀ j, ctx = some j → s.Free j) :
    Follows c Now (Run.validator (d + 1) val v ctx) (Run.validator (k + 1) val v (detach c ctx))
      s := by
  rw [Run.validator.eq_def, Run.validator.eq_def]
  dsimp only
  -- whatever the check answered at once, the validator passes on or answers later alike
  have hrest : ∀ {x₁ x₂ : Run Outcome} {f : Outcome → Run Outcome},
      (∀ code x, Commutes (.context c x) (f (.now code))) → (∀ k, f (.later k) = pure (.later k)) →
      Follows c Now x₁ x₂ s → Follows c Now (x₁ >>= f) (x₂ >>= f) s := fun hf hl hx =>
    Follows.bind_now hx (fun k _ => by rw [hl]; exact Yields.pure (not_now_later _))
      fun _ _ _ _ h => by
        subst h
        exact Follows.of_commutes (hf _)
  split
  · exact hrest (fun _ _ => inferInstance) (fun _ => rfl) (Follows.of_commutes fun _ => inferInstance)
  · split
    · exact hrest (fun _ _ => inferInstance) (fun _ => rfl) (ih.check _ _ _ _ k hk s hs hc hctx)
    · exact hrest (fun _ _ => inferInstance) (fun _ => rfl)
        (Follows.of_commutes fun _ => inferInstance)
  · exact hrest (fun _ _ => inferInstance) (fun _ => rfl) (ih.check _ _ _ _ k hk s hs hc hctx)

theorem start_succ (ih : RunSim c d) (inner : Nat) (es : List (Value × Value)) {k : Nat}
    (hk : d ≤ k) (s : Store) (hs : s.Coherent) (hc : s.Free c) (hfree : s.Free inner)
    (hne : inner ≠ c) :
    Follows c AllNow (Run.start (d + 1) inner (.dict es)) (Run.start (k + 1) inner (.dict es)) s := by
  intro b hb rs t hrun hall
  rw [Run.start_dict] at hrun ⊢
  -- both runs go on from their marked stores, which differ in `c` alone
  have hm := Store.Keeps.marked hs hfree.1 es
  rw [hb.schemas, hb.at_ne hne] at hrun
  refine fields_follows (fun val x t ht hct hf => ?_) (fun val x t ht hf =>
    ((runAgrees d).validator val x (some inner) t ht fun j hj => by cases hj; exact hf).mono
      fun o u ho code hcode => (ho code hcode).1) es _ _ hm.coherent (hm.free hc) (hm.free hfree) _
    (hb.marked hne es) rs t hrun hall
  have hv := ih.validator val x (some inner) k hk t ht hct fun j hj => by cases hj; exact hf
  rwa [detach_ne hne] at hv

theorem context_succ (ih : RunSim c d) (inner : Nat) (es : List (Value × Value)) {k : Nat}
    (hk : d ≤ k) (s : Store) (hs : s.Coherent) (hc : s.Free c) (hfree : s.Free inner)
    (hne : inner ≠ c) :
    Follows c Now (Run.context (d + 1) inner (.dict es)) (Run.context (k + 1) inner (.dict es)) s := by
  rw [Run.context.eq_2, Run.context.eq_2]
  refine Follows.bind (ih.start inner es k hk s hs hc hfree hne) fun rs t _ =>
    ⟨fun _ => ?_, fun hlater => ?_⟩
  · split
    · exact Follows.of_commutes fun _ => inferInstance
    · exact Follows.of_commutes fun x => by
        have := Commutes.of_apply_ne x hne
        infer_instance
  · -- a field answering later makes the run answer later
    have hany : (rs.any fun x => Outcome.isLater x.2) = true := by
      by_contra h
      simp only [Bool.not_eq_true, List.any_eq_false] at h
      exact hlater fun x hx => by simpa using h x hx
    rw [if_pos hany]
    exact Yields.pure (not_now_later _)

/-- The nested run of a nested-schema check, with its fault handler, in a context other than
`c`: on a mapping it is followed as a run of that context; a value that is not a mapping is
caught alike on both sides, once the check's flag is restored. -/
theorem nested_answer (ih : RunSim c d) (node : Nat) (reentrant : Bool) (inner : Nat) (v : Value)
    {k : Nat} (hk : d ≤ k) (t : Store) (ht : t.Coherent) (hc : t.Free c) (hfree : t.Free inner)
    (hne : inner ≠ c) :
    Follows c (fun a => a = none ∨ ∃ valid, a = some (.now valid))
      (tryCatch (some <$> Run.context d inner v) fun e => do
        setBusy node reentrant
        match v, e with
        | .dict _, _ => throw e
        | _, .notMapping _ _ => return none
        | _, _ => throw e)
      (tryCatch (some <$> Run.context k inner v) fun e => do
        setBusy node reentrant
        match v, e with
        | .dict _, _ => throw e
        | _, .notMapping _ _ => return none
        | _, _ => throw e) t := by
  intro b hb a u hrun ha
  by_cases hv : ∃ es, v = .dict es
  · obtain ⟨es, rfl⟩ := hv
    rw [Run.run_tryCatch, Run.run_map] at hrun
    rcases hr : (Run.context d inner (.dict es)).run.run t with ⟨_ | o, t'⟩
    all_goals rw [hr] at hrun
    · -- a fault of the nested run on a mapping is raised again
      obtain ⟨_, _, _, h⟩ := Run.ok_of_bind hrun
      cases h
    · cases hrun
      have hnow : Now o := by
        rcases ha with h | ⟨valid, h⟩ <;> cases h
        rfl
      obtain ⟨u', hb', hoff⟩ := ih.context inner es k hk t ht hc hfree hne b hb o _ hr hnow
      refine ⟨u', ?_, hoff⟩
      rw [Run.run_tryCatch, Run.run_map, hb']
  · have hv' : ∀ es, v ≠ .dict es := fun es h => hv ⟨es, h⟩
    -- the nested run refuses the value once it has the depth to start; without it, it fails
    by_cases hd : d < 2
    · -- without the depth to start, the handler raises the fault again
      rw [Run.run_tryCatch, Run.run_map, Run.context_limit hd] at hrun
      obtain ⟨_, _, _, h⟩ := Run.ok_of_bind hrun
      split at h
      · cases h
      · rename_i hrefused
        cases hrefused
      · cases h
    obtain ⟨d, rfl⟩ : ∃ d', d = d' + 2 := ⟨d - 2, by omega⟩
    obtain ⟨k, rfl⟩ : ∃ k', k = k' + 2 := ⟨k - 2, by omega⟩
    rw [Run.run_tryCatch, Run.run_map, Run.context_refuses hv' d inner t] at hrun
    rw [Run.run_tryCatch, Run.run_map, Run.context_refuses hv' k inner b, ← hb.schemaNameIn,
      ← hb.at_ne hne]
    dsimp only at hrun ⊢
    exact hb.step (fun x => by
      refine @Commutes.bind _ _ _ _ _ inferInstance fun _ => ?_
      split <;> infer_instance) hrun

theorem check_succ (ih : RunSim c d) (node : Nat) (v : Value) (ctx : Option Nat) (path : String)
    {k : Nat} (hk : d ≤ k) (s : Store) (hs : s.Coherent) (hc : s.Free c)
    (hctx : ∀ j, ctx = some j → s.Free j) :
    Follows c Now (Run.check (d + 1) node v ctx path)
      (Run.check (k + 1) node v (detach c ctx) path) s := by
  rw [Run.check.eq_2, Run.check.eq_2]
  refine Follows.bind_all (Follows.of_commutes fun _ => inferInstance) fun cn t hcn => ?_
  rw [Store.run_check] at hcn
  cases hcn
  cases hnode : Store.at! s.checks node with
  | union cs =>
    refine attempts_follows (fun node t ht hct => ?_) (fun node t ht =>
      ((runAgrees d).check node v none path t ht (by simp)).mono
        fun o u ho code hcode => (ho code hcode).1) cs cs 0 .none s hs hc
    have h := ih.check node v none path k hk t ht hct (by simp)
    rwa [detach_none] at h
  | array e lo hi =>
    dsimp only
    split
    · exact Follows.of_commutes fun _ => inferInstance
    · split_ifs
      · exact Follows.of_commutes fun _ => inferInstance
      · exact Follows.of_commutes fun _ => inferInstance
      · exact elements_follows (fun x i t ht hct hf => ih.check e x ctx _ k hk t ht hct hf)
          (fun x i t ht hf => ((runAgrees d).check e x ctx _ t ht hf).mono
            fun o u ho code hcode => (ho code hcode).1) _ _ 0 .none s hs hc hctx
  | nested sid owned busy =>
    dsimp only
    have hnode' := getElem?_of_at! hnode fun h => by cases h
    -- the two ways of taking a context share the rest of the check
    split
    all_goals
      rename_i hbusy
      refine Follows.bind_all (Follows.of_commutes fun _ => inferInstance) fun inner s₁ h₁ => ?_
      refine Follows.bind_all (Follows.of_commutes fun _ => inferInstance) fun _ s₂ h₂ => ?_
      have he := Entered.of_run hs hnode' (by simpa only [hbusy, Bool.false_eq_true, ↓reduceIte] using h₁) h₂
      -- the nested run's context is not `c`, which is still free
      obtain ⟨hinner, hc₂, -⟩ := he.frame c hc
      refine Follows.bind (nested_answer ih node busy inner v hk s₂ he.coherent hc₂ he.free
        (Ne.symm hinner)) fun a u _ => ⟨fun ha => ?_, fun ha => ?_⟩
      · rcases ha with rfl | ⟨valid, rfl⟩
        · exact Follows.of_commutes fun _ => inferInstance
        · exact Follows.release node busy ctx path (Ne.symm hinner) valid
      · -- a pending nested run makes the check answer later
        rcases a with _ | (valid | l)
        · exact absurd (.inl rfl) ha
        · exact absurd (.inr ⟨valid, rfl⟩) ha
        · rcases ctx with _ | c₀
          · exact Yields.pure (not_now_later _)
          · exact Yields.bind fun _ _ _ => Yields.bind fun _ _ _ => Yields.pure (not_now_later _)
  | lazy lid field spec owner built =>
    dsimp only
    cases built with
    | some n =>
      refine Follows.bind_all (Follows.of_commutes fun _ => inferInstance) fun n' t h => ?_
      cases h
      exact ih.check n v ctx path k hk s hs hc hctx
    | none =>
      have hnode' := getElem?_of_at! hnode fun h => by cases h
      -- building the tag's check only adds to the store
      refine Follows.bind_all (Follows.of_commutes fun _ => inferInstance) fun _ u₁ hr₁ => ?_
      have h₁ := Yields.of_adding hs _ _ hr₁
      refine Follows.bind_all (Follows.of_commutes fun _ => inferInstance) fun n u₂ hr₂ => ?_
      have h₂ := Yields.of_adding h₁.1 _ _ hr₂
      refine Follows.bind_all (Follows.of_commutes fun _ => inferInstance) fun _ u₃ hr₃ => ?_
      rw [Store.run_setCheck] at hr₃
      cases hr₃
      refine Follows.bind_all (Follows.of_commutes fun _ => inferInstance) fun n' u₄ hr₄ => ?_
      cases hr₄
      have hkeep := Store.Keeps.build_lazy h₂.1 (h₁.2.trans h₂.2) hnode' n
      exact ih.check n v ctx path k hk _ hkeep.coherent (hkeep.free hc)
        fun j hj => hkeep.free (hctx j hj)
  | custom inner rule =>
    dsimp only
    refine Follows.bind_now (ih.check inner v ctx path k hk s hs hc hctx)
      (fun _ _ => Yields.pure (not_now_later _)) fun o t ho code hcode => ?_
    subst hcode
    exact Follows.of_commutes fun _ => inferInstance
  | _ => exact Follows.of_commutes fun _ => inferInstance

/-- A property of every depth from `d + 1` on, from one of every successor from `d` on. -/
theorem forall_succ_le {P : Nat → Prop} (h : ∀ k, d ≤ k → P (k + 1)) :
    ∀ d', d + 1 ≤ d' → P d'
  | 0, hd => absurd hd (by omega)
  | k + 1, hd => h k (by omega)

theorem succ (ih : RunSim c d) : RunSim c (d + 1) where
  check node v ctx path := forall_succ_le fun _ hk => check_succ ih node v ctx path hk
  context inner es := forall_succ_le fun _ hk => context_succ ih inner es hk
  start inner es := forall_succ_le fun _ hk => start_succ ih inner es hk
  validator val v ctx := forall_succ_le fun _ hk => validator_succ ih val v ctx hk

end RunSim

/-- The simulation holds at every depth. -/
theorem runSim (c : Nat) : ∀ d, RunSim c d
  | 0 => .zero
  | d + 1 => (runSim c d).succ

end Run

/-! ### A synchronous run that answers -/

/-- A synchronous run that answers had every field answer at once, and wrote their codes into
the context. -/
theorem Run.validate_ok {ctx : Nat} {es : List (Value × Value)} {s T : Store} {b : Bool}
    (h : (Run.validate ctx (.dict es)).run.run s = (.ok b, T)) :
    ∃ rs t, (Run.start Run.depth ctx (.dict es)).run.run s = (.ok rs, t) ∧ Run.AllNow rs ∧
      (Run.apply ctx (rs.map fun x => match x.2 with
        | .now c => (x.1, c)
        | .later _ => (x.1, Value.coroutine))).run.run t = (.ok b, T) := by
  unfold Run.validate at h
  obtain ⟨_, _, h₁, h⟩ := Run.ok_of_bind h
  rw [Store.run_context] at h₁
  cases h₁
  obtain ⟨rs, t, h₂, h⟩ := Run.ok_of_bind h
  dsimp only at h
  split at h
  · -- a pending field: the run is refused
    obtain ⟨_, _, _, h⟩ := Run.ok_of_bind h
    obtain ⟨_, _, _, h⟩ := Run.ok_of_bind h
    obtain ⟨_, _, h, _⟩ := Run.ok_of_bind h
    cases h
  · rename_i hpending
    refine ⟨rs, t, h₂, fun x hx => ?_, h⟩
    simp only [Bool.not_eq_true', List.isEmpty_eq_false_iff_exists_mem, List.mem_filterMap,
      not_exists, not_and] at hpending
    cases hlater : Outcome.isLater x.2
    · rfl
    · exact absurd (if_pos hlater) (hpending x.1 x hx)

/-- What the marked context holds: the marks over the entries it kept for the schema's fields. -/
theorem Store.messagesAt_marked {s : Store} {c : Nat} (hc : c < s.contexts.size)
    (es : List (Value × Value)) :
    (s.marked c es).messagesAt c =
      Messages.putAll (Messages.notIn (Store.namingIn s)
          (Store.fieldNamesIn s (Store.at! s.contexts c).schema) es)
        ((Store.at! s.contexts c).messages.filter fun x =>
          (Store.fieldNamesIn s (Store.at! s.contexts c).schema).contains x.1) := by
  simp [Store.marked, Store.messagesAt, hc]

/-- **What a synchronous run of a context reads.** From a coherent store in which the context
is free, a run that answers `b` gave its fields the codes `codes`, in field order, and ended
with the map `settle codes m`, empty exactly when `b` holds, where `m` reads, at each path that
names no field, the last copy a field wrote there or else the last `notInSchema` mark. -/
theorem Run.validate_reads {c : Nat} {es : List (Value × Value)} {s T : Store} {b : Bool}
    (hs : s.Coherent) (hfree : s.Free c) (h : (Run.validate c (.dict es)).run.run s = (.ok b, T)) :
    ∃ codes ws t, (Run.start Run.depth c (.dict es)).run.run s =
        (.ok (codes.map fun x => (x.1, .now x.2)), t) ∧
      codes.map (·.1) = Store.fieldNamesIn s (Store.at! s.contexts c).schema ∧
      FieldAnswers (Store.Between (s.marked c es) t)
        (Store.at! s.schemas (Store.at! s.contexts c).schema).fields es codes ws ∧
      T.messagesAt c = Messages.settle codes (t.messagesAt c) ∧
      b = (Messages.settle codes (t.messagesAt c)).isEmpty ∧
      ∀ k, k ∉ Store.fieldNamesIn s (Store.at! s.contexts c).schema →
        Messages.get? k (t.messagesAt c) = (Messages.lastAt k ws).or (Messages.lastAt k
          (Messages.notIn (Store.namingIn s) (Store.fieldNamesIn s (Store.at! s.contexts c).schema)
            es)) := by
  obtain ⟨rs, t, hstart, hall, happly⟩ := validate_ok h
  -- the run marks the keys, then runs the fields from the marked store
  have hm := Store.Keeps.marked hs hfree.1 es
  have hfields := hstart
  rw [show Run.depth = 99999 + 1 from rfl, start_dict] at hfields
  obtain ⟨codes, rfl, hk, ws, -, hfa, hmsg⟩ := fields_agrees (fun val x u hu hf =>
    (runAgrees 99999).validator val x (some c) u hu fun j hj => by cases hj; exact hf) es _ _
    hm.coherent (hm.free hfree) (hs.named_at _) _ t hfields hall
  have hfa := hfa _ (Spans.between _ _)
  rw [Run.apply_run] at happly
  cases happly
  have hcodes : ((codes.map fun x => (x.1, Outcome.now x.2)).map fun x => match x.2 with
      | .now c => (x.1, c)
      | .later _ => (x.1, Value.coroutine)) = codes := by
    simp only [List.map_map, Function.comp_def, Prod.mk.eta, List.map_id']
  have hct : c < t.contexts.size := lt_of_lt_of_le hfree.1 (hm.trans hk).steps.ext.contexts_size
  refine ⟨codes, ws, t, hstart, hfa.names, hfa, by rw [hcodes, Store.messagesAt_withMessages hct],
    by rw [hcodes], fun k hk' => ?_⟩
  -- a path that names no field reads the copies and the marks; the entries kept are the fields'
  rw [hmsg c rfl, Messages.get?_putAll, Store.messagesAt_marked hfree.1, Messages.get?_putAll,
    Messages.get?_filter (fun k => (Store.fieldNamesIn s (Store.at! s.contexts c).schema).contains k),
    if_neg fun h => hk' (List.contains_iff_mem.mp h), Option.or_none]

/-! ### Reading the maps a run leaves -/

namespace Messages

/-- A map that reads something at a path is not empty. -/
theorem isEmpty_of_get? {k c : String} {m : List (String × String)} (h : get? k m = some c) :
    m.isEmpty = false := by
  cases m with
  | nil => cases h
  | cons _ _ => rfl

/-- A map that reads nothing at any path is empty. -/
theorem eq_nil_of_get? {m : List (String × String)} (h : ∀ k, get? k m = none) : m = [] := by
  cases m with
  | nil => rfl
  | cons e rest =>
    have := h e.1
    rw [get?_cons, if_pos rfl] at this
    cases this

/-- A path written somewhere in `w` has a last write. -/
theorem lastAt_isSome {k x : String} {w : List (String × String)} (h : (k, x) ∈ w) :
    (lastAt k w).isSome := by
  simp only [lastAt, Option.isSome_map, List.find?_isSome]
  exact ⟨(k, x), List.mem_reverse.mpr h, by simp⟩

theorem lastCode_eq_none {k : String} {codes : List (String × Value)}
    (hk : k ∉ codes.map (·.1)) : lastCode k codes = none := by
  simp only [lastCode, Option.map_eq_none_iff, List.find?_eq_none]
  intro x hx hxk
  exact hk (List.mem_map.mpr ⟨x, List.mem_reverse.mp hx, by simpa using hxk⟩)

theorem mem_of_lastCode {k : String} {code : Value} {codes : List (String × Value)}
    (h : lastCode k codes = some code) : (k, code) ∈ codes := by
  obtain ⟨x, hx, rfl⟩ := Option.map_eq_some_iff.mp h
  have hk : x.1 = k := by simpa using List.find?_some hx
  rw [← hk]
  exact List.mem_reverse.mp (List.mem_of_find?_eq_some hx)

/-- With no field named twice, a field's last code is its code. -/
theorem lastCode_of_mem {codes : List (String × Value)} (hn : (codes.map (·.1)).Nodup)
    {x : String × Value} (hx : x ∈ codes) : lastCode x.1 codes = some x.2 := by
  induction codes with
  | nil => cases hx
  | cons y codes ih =>
    rw [lastCode_cons]
    rw [List.map_cons, List.nodup_cons] at hn
    rcases List.mem_cons.mp hx with rfl | hx
    · rw [lastCode_eq_none hn.1, if_pos rfl]
      rfl
    · rw [ih hn.2 hx]
      rfl

theorem mem_notIn {naming : Naming} {names : List String} {es : List (Value × Value)}
    {e : Value × Value} (he : e ∈ es) (hn : Run.namesField names e.1 = false) :
    (e.1.plain naming, "notInSchema") ∈ notIn naming names es :=
  List.mem_filterMap.mpr ⟨e, he, by simp [hn]⟩

theorem notIn_eq_nil {naming : Naming} {names : List String} {es : List (Value × Value)}
    (h : ∀ e ∈ es, Run.namesField names e.1 = true) : notIn naming names es = [] :=
  List.filterMap_eq_nil_iff.mpr fun e he => by simp [h e he]

/-- With no field named twice, a settled map is empty exactly when no field's code is text, if
the map read at the other paths only copies, which come with text codes alone. -/
theorem settle_eq_nil_iff {codes : List (String × Value)} {m ws : List (String × String)}
    (hn : (codes.map (·.1)).Nodup) (hm : ∀ k, k ∉ codes.map (·.1) → get? k m = lastAt k ws)
    (hws : (∀ x ∈ codes, Run.codeText x.2 = none) → ws = []) :
    settle codes m = [] ↔ ∀ x ∈ codes, Run.codeText x.2 = none := by
  constructor
  · intro hnil x hx
    have hread := get?_settle codes m x.1
    rw [lastCode_of_mem hn hx, hnil, get?_nil] at hread
    exact hread.symm
  · intro hall
    refine eq_nil_of_get? fun k => ?_
    rw [get?_settle]
    rcases hl : lastCode k codes with _ | code
    · -- a path that names no field reads no copy
      have hk : k ∉ codes.map (·.1) := fun hk => by
        obtain ⟨x, hx, rfl⟩ := List.mem_map.mp hk
        rw [lastCode_of_mem hn hx] at hl
        cases hl
      rw [hm k hk, hws hall]
      rfl
    · exact hall _ (mem_of_lastCode hl)

end Messages

/-- A list run through a step that answers at once and leaves the store alone. -/
theorem Run.mapM_run {α β : Type} (f : α → Run β) (g : α → β) (s : Store)
    (hf : ∀ x, (f x).run.run s = (.ok (g x), s)) :
    ∀ xs : List α, (xs.mapM f).run.run s = (.ok (xs.map g), s) := by
  intro xs
  induction xs with
  | nil => rfl
  | cons x xs ih =>
    rw [List.mapM_cons, Run.run_bind_of_eq (hf x), Run.run_bind_of_eq ih]
    rfl

/-! ### The fields of a batch result -/

namespace Batch

/-- The value a batch result keeps for a field: the record's, none when absent. -/
def keptValue (es : List (Value × Value)) (name : String) : Value :=
  if (Value.lookup (.str name) es).getD .missing matches .missing then .none
  else (Value.lookup (.str name) es).getD .missing

/-- What a batch result runs for one field: its validator, with no context and the whole
depth. -/
def fieldOutcome (es : List (Value × Value)) (x : String × Field) :
    Run (String × Value × Outcome) := do
  let o ← Run.validator Run.depth x.2.validator ((Value.lookup (.str x.1) es).getD .missing) none
  return (x.1, keptValue es x.1, o)

/-- The runs of the fields of a run into context `c`, from a store in which `c` is free, are
followed by the batch result's runs of the same validators, given no context. -/
theorem fieldOutcomes_follow (c : Nat) (es : List (Value × Value)) (fs : List (String × Field)) :
    ∀ (d : Nat), d ≤ Run.depth → ∀ (s b : Store), s.Coherent → s.Free c → Store.Off c b s →
      ∀ rs t, (Run.fields (fun val x => Run.validator d val x (some c)) es fs).run.run s =
        (.ok rs, t) → Run.AllNow rs → ∃ u, (fs.mapM (fieldOutcome es)).run.run b =
          (.ok (rs.map fun x => (x.1, keptValue es x.1, x.2)), u) ∧ Store.Off c u t := by
  induction fs with
  | nil =>
    intro d _ s b _ _ hb rs t hrun _
    rw [Run.fields.eq_1] at hrun
    cases hrun
    exact ⟨b, rfl, hb⟩
  | cons field rest ih =>
    obtain ⟨name, f⟩ := field
    intro d hd s b hs hc hb rs t hrun hall
    rw [Run.fields.eq_2] at hrun
    obtain ⟨o, t₁, h₁, hrun⟩ := Run.ok_of_bind hrun
    obtain ⟨rs', t₂, h₂, hrun⟩ := Run.ok_of_bind hrun
    cases hrun
    -- the first field's validator: into `c` on one side, into no context on the other
    have hcf : ∀ j, some c = some j → s.Free j := fun j hj => by cases hj; exact hc
    have hv := (Run.runSim c d).validator f.validator ((Value.lookup (.str name) es).getD .missing)
      (some c) Run.depth hd s hs hc hcf
    rw [Run.detach_self] at hv
    have hnow : Run.Now o := hall _ List.mem_cons_self
    obtain ⟨u₁, hb₁, hoff₁⟩ := hv b hb o t₁ h₁ hnow
    obtain ⟨code, rfl⟩ := hnow.exists
    have hk₁ := ((Run.runAgrees d).validator _ _ (some c) s hs hcf _ t₁ h₁ code rfl).1
    -- the other fields, from where the first one left both sides
    obtain ⟨u₂, hb₂, hoff₂⟩ := ih d hd t₁ u₁ hk₁.coherent (hk₁.free hc) hoff₁ rs' _ h₂
      fun x hx => hall x (List.mem_cons_of_mem _ hx)
    refine ⟨u₂, ?_, hoff₂⟩
    have hfirst : (fieldOutcome es (name, f)).run.run b =
        (.ok (name, keptValue es name, .now code), u₁) := by
      unfold fieldOutcome
      rw [Run.run_bind_of_eq hb₁]
      rfl
    rw [List.mapM_cons, Run.run_bind_of_eq hfirst, Run.run_bind_of_eq hb₂]
    rfl

/-- A record holding a key that names no field is rejected: the result lists each such key and
is not valid. -/
theorem create_rejects {sid : Nat} {es : List (Value × Value)} {s : Store}
    (hk : ∃ e ∈ es, Run.namesField (Store.fieldNamesIn s sid) e.1 = false) :
    ∃ id u, (create sid (.dict es)).run.run s = (.ok id, u) ∧
      (Store.at! u.batches id).valid = false := by
  obtain ⟨e, he, hn⟩ := hk
  have hne : (!(es.filter fun x =>
      !Run.namesField ((Store.at! s.schemas sid).fields.map (·.1)) x.1).isEmpty) = true := by
    simp only [Bool.not_eq_true', List.isEmpty_eq_false_iff_exists_mem, List.mem_filter]
    exact ⟨e, he, by simpa [Store.fieldNamesIn] using hn⟩
  unfold create
  rw [Run.run_bind_of_eq (Run.run_pure _ _), Run.run_bind_of_eq (Store.run_schema _ _)]
  dsimp only
  -- every such key is listed with its plain text, its value and `keyNotInSchema`
  rw [if_pos hne, Run.run_bind_of_eq (Run.mapM_run _
    (fun x => (x.1.plain (Store.namingIn s), x.2, Outcome.now (.str "keyNotInSchema"))) s
    ?_ _)]
  · refine ⟨_, _, rfl, ?_⟩
    rw [Store.at!_push_size]
    simp only [valid, errors, List.filterMap_map, Function.comp_apply, Bool.true_and]
    -- every listed key is an error
    have hcode : Run.codeText (.str "keyNotInSchema") = some "keyNotInSchema" := rfl
    simpa only [hcode, Option.map_some, List.filterMap_eq_map', List.isEmpty_map, Bool.not_eq_true',
      Bool.not_eq_false] using hne
  · exact fun _ => rfl

/-- A record whose every key names a field runs every field's validator, with no context. -/
theorem create_known {sid : Nat} {es : List (Value × Value)} {s : Store}
    (hk : ∀ e ∈ es, Run.namesField (Store.fieldNamesIn s sid) e.1 = true) :
    (create sid (.dict es)).run.run s = (do
      let outcomes ← (Store.at! s.schemas sid).fields.mapM (fieldOutcome es)
      Store.addBatch
        { outcomes := outcomes
          rejected := false
          done := !outcomes.any fun x => Run.Outcome.isLater x.2.2 }).run.run s := by
  have hnil : (es.filter fun x =>
      !Run.namesField ((Store.at! s.schemas sid).fields.map (·.1)) x.1).isEmpty = true := by
    simp only [List.isEmpty_iff, List.filter_eq_nil_iff, Bool.not_eq_true']
    exact fun e he => by simpa [Store.fieldNamesIn] using hk e he
  unfold create
  rw [Run.run_bind_of_eq (Run.run_pure _ _), Run.run_bind_of_eq (Store.run_schema _ _)]
  dsimp only
  rw [hnil, if_neg (by decide)]
  rfl

/-- The errors of a batch result whose fields all answered at once: the fields whose code is
text, in order, with their values. -/
theorem errors_now (es : List (Value × Value)) (codes : List (String × Value)) (rejected done : Bool) :
    errors
        { outcomes := (codes.map fun x => (x.1, Outcome.now x.2)).map fun x =>
            (x.1, keptValue es x.1, x.2)
          rejected := rejected
          done := done } =
      codes.filterMap fun x => (Run.codeText x.2).map fun m => ⟨x.1, m, keptValue es x.1⟩ := by
  simp [errors, List.filterMap_map, Function.comp_def]

end Batch

end Schematic

namespace Schematic

namespace Run

/-- **A batch result agrees with a run of a context.** Run from a coherent store on a context
free for its caller, a synchronous validation of a mapping that answers `b` is followed by a
batch result of the context's schema on the same mapping, from the same store. When no key that
names no field has a plain text that names one, the result is valid exactly when `b` holds.
When every key names a field, its errors are the context's messages at the fields, in field
order, each with the field's value (none when absent). Both need the schema's fields to have
distinct names. -/
theorem batch_agrees (c : Nat) (es : List (Value × Value)) (s : Store) (hs : s.Coherent)
    (hfree : s.Free c) {b : Bool} {T : Store}
    (h : (validate c (.dict es)).run.run s = (.ok b, T)) :
    ∃ id u, (Batch.create (Store.at! s.contexts c).schema (.dict es)).run.run s = (.ok id, u) ∧
      ((Store.fieldNamesIn s (Store.at! s.contexts c).schema).Nodup →
        (∀ e ∈ es, namesField (Store.fieldNamesIn s (Store.at! s.contexts c).schema) e.1 = false →
          e.1.plain (Store.namingIn s) ∉ Store.fieldNamesIn s (Store.at! s.contexts c).schema) →
        (Store.at! u.batches id).valid = b) ∧
      ((Store.fieldNamesIn s (Store.at! s.contexts c).schema).Nodup →
        (∀ e ∈ es, namesField (Store.fieldNamesIn s (Store.at! s.contexts c).schema) e.1 = true) →
        Batch.errors (Store.at! u.batches id) =
          (Store.fieldNamesIn s (Store.at! s.contexts c).schema).filterMap fun f =>
            (Messages.get? f (T.messagesAt c)).map fun m => ⟨f, m, Batch.keptValue es f⟩) := by
  obtain ⟨codes, ws, t, hstart, hnames, hfa, hT, hb, hread⟩ := validate_reads hs hfree h
  by_cases hunk : ∃ e ∈ es,
      namesField (Store.fieldNamesIn s (Store.at! s.contexts c).schema) e.1 = false
  · -- a key that names no field: the batch result is rejected, and the key's mark stays
    obtain ⟨id, u, hrun, hvalid⟩ := Batch.create_rejects hunk
    obtain ⟨e, he, hn⟩ := hunk
    refine ⟨id, u, hrun, fun _ hkeys => ?_, fun _ hall => absurd (hall e he) (by simp [hn])⟩
    have hp := hkeys e he hn
    have hmark : (Messages.get? (e.1.plain (Store.namingIn s))
        (Messages.settle codes (t.messagesAt c))).isSome := by
      rw [Messages.get?_settle, Messages.lastCode_eq_none (hnames ▸ hp), hread _ hp,
        Option.isSome_or, Messages.lastAt_isSome (Messages.mem_notIn he hn), Bool.or_true]
    obtain ⟨x, hx⟩ := Option.isSome_iff_exists.mp hmark
    rw [hvalid, hb, Messages.isEmpty_of_get? hx]
  · -- every key names a field: the batch result runs the fields with no context
    have hkeys : ∀ e ∈ es,
        namesField (Store.fieldNamesIn s (Store.at! s.contexts c).schema) e.1 = true := by
      simpa using hunk
    have hm := Store.Keeps.marked hs hfree.1 es
    have hfields := hstart
    rw [show depth = 99999 + 1 from rfl, start_dict] at hfields
    obtain ⟨u, hu, -⟩ := Batch.fieldOutcomes_follow c es _ 99999 (by decide) _ s hm.coherent
      (hm.free hfree) ⟨_, hfree.1, rfl⟩ _ t hfields fun x hx => by
        obtain ⟨y, -, rfl⟩ := List.mem_map.mp hx
        rfl
    rw [Batch.create_known hkeys, Run.run_bind_of_eq hu]
    refine ⟨_, _, rfl, fun hnodup _ => ?_, fun hnodup _ => ?_⟩
    all_goals have hnodup : (codes.map (·.1)).Nodup := by rw [hnames]; exact hnodup
    · -- both are valid exactly when no field's code is text
      rw [Store.at!_push_size, hb, Bool.eq_iff_iff, List.isEmpty_iff,
        Messages.settle_eq_nil_iff hnodup ?_ (FieldAnswers.copies_nil hfa)]
      · simp only [Batch.valid, Batch.errors_now]
        simp [Outcome.isLater, List.filterMap_eq_nil_iff]
      · intro k hk
        rw [hread k (hnames ▸ hk), Messages.notIn_eq_nil hkeys,
          show Messages.lastAt k [] = none from rfl, Option.or_none]
    · -- a field's message is the text of its own code
      rw [Store.at!_push_size, Batch.errors_now, hT, ← hnames, List.filterMap_map]
      refine List.filterMap_congr fun x hx => ?_
      simp only [Function.comp_apply, Messages.get?_settle, Messages.lastCode_of_mem hnodup hx]

end Run

/-- A number where a list of records is due: the batch result and the context both find it
invalid, and the batch lists the field `items` with the context's code. -/
theorem batch_agrees_items :
    (listStore "items").Coherent ∧ (listStore "items").Free 1 ∧
      (Run.validate 1 (.dict [(.str "items", .int 5)])).run.run (listStore "items") =
        (.ok false, ((Run.validate 1 (.dict [(.str "items", .int 5)])).run.run
          (listStore "items")).2) ∧
      ∃ id u, (Batch.create (Store.at! (listStore "items").contexts 1).schema
          (.dict [(.str "items", .int 5)])).run.run (listStore "items") = (.ok id, u) ∧
        (Store.at! u.batches id).valid = false ∧
        Batch.errors (Store.at! u.batches id) =
          (Store.fieldNamesIn (listStore "items") (Store.at! (listStore "items").contexts 1).schema).filterMap
            fun f => (Messages.get? f (((Run.validate 1 (.dict [(.str "items", .int 5)])).run.run
              (listStore "items")).2.messagesAt 1)).map fun m =>
                ⟨f, m, Batch.keptValue [(.str "items", .int 5)] f⟩ := by
  have hrun : (Run.validate 1 (.dict [(.str "items", .int 5)])).run.run (listStore "items") =
      (.ok false, ((Run.validate 1 (.dict [(.str "items", .int 5)])).run.run
        (listStore "items")).2) :=
    Prod.ext (by cbv) rfl
  obtain ⟨id, u, hcreate, hvalid, herrors⟩ := Run.batch_agrees 1 _ (listStore "items")
    (Run.listStore_coherent _) (Run.listStore_free _) hrun
  have hnodup : (Store.fieldNamesIn (listStore "items")
      (Store.at! (listStore "items").contexts 1).schema).Nodup := by decide
  have hkeys : ∀ e ∈ [((Value.str "items"), Value.int 5)], Run.namesField
      (Store.fieldNamesIn (listStore "items") (Store.at! (listStore "items").contexts 1).schema)
        e.1 = true := by decide
  exact ⟨Run.listStore_coherent _, Run.listStore_free _, hrun, id, u, hcreate,
    hvalid hnodup fun e he hn => absurd (hkeys e he) (by simp [hn]), herrors hnodup hkeys⟩

/-- The key `3`, a number, names no field: a batch result rejects the record, while a context
marks the key under its text `3`, which the optional text field `3` then clears, so that the
context ends valid. -/
theorem batch_rejects_number_key :
    ((Run.validate 0 (.dict [(.int 3, .int 1)])).run.run (textStore "3")).1 = .ok true ∧
      ∃ id u, (Batch.create 0 (.dict [(.int 3, .int 1)])).run.run (textStore "3") = (.ok id, u) ∧
        (Store.at! u.batches id).valid = false :=
  ⟨by cbv, _, _, Prod.ext rfl rfl, by cbv⟩

end Schematic
