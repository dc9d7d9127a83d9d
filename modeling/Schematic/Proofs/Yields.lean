import Mathlib
import Schematic.Proofs.Building
import Schematic.Proofs.Answers

/-!
# What a run that answers keeps

`Yields m s Q` is partial correctness: every answer `m` gives from `s`, with the store it leaves,
satisfies `Q`. Its rules put `do` blocks together as `Ends` does, for runs that may raise
anything.

A run that answers at once keeps the store in order and touches only what it owns
(`Store.Keeps ctx s t`): the store stays coherent and steps forward, every busy flag is back as
it was, and every free context other than the caller's `ctx` is as it was. What it writes into
its caller's context is a list of entries written in order (`Store.Wrote`), so that the
messages of a caller are the entries of its callees, one after another.

The module ends with the store operations of the runner, each read as an equation: writing a
context's messages, freeing a busy check, marking unknown keys, copying a nested map.
-/

namespace Schematic

/-- Run from `s`, every answer of `m` satisfies `Q` with the store it leaves. -/
def Yields {α : Type} (m : Run α) (s : Store) (Q : α → Store → Prop) : Prop :=
  ∀ a t, m.run.run s = (.ok a, t) → Q a t

namespace Yields

variable {α β : Type} {s : Store} {Q : α → Store → Prop}

theorem of_eq {m : Run α} {r : Except Fault α} {t : Store} (h : m.run.run s = (r, t))
    (hq : ∀ a, r = .ok a → Q a t) : Yields m s Q := by
  intro a u hu
  rw [h] at hu
  cases hu
  exact hq a rfl

theorem pure {a : α} (h : Q a s) : Yields (Pure.pure a) s Q :=
  of_eq rfl fun _ ha => by cases ha; exact h

theorem throw (e : Fault) : Yields (MonadExcept.throw e : Run α) s Q :=
  of_eq rfl fun _ ha => by cases ha

theorem read {f : Store → α} (h : Q (f s) s) : Yields (Store.read f) s Q :=
  of_eq rfl fun _ ha => by cases ha; exact h

theorem mono {m : Run α} {P : α → Store → Prop} (h : Yields m s P) (hpq : ∀ a t, P a t → Q a t) :
    Yields m s Q :=
  fun a t ht => hpq a t (h a t ht)

/-- The rule for sequencing: the rest of the block answers from wherever the first step
answered. -/
theorem bind {x : Run α} {f : α → Run β} {Q : β → Store → Prop}
    (h : Yields x s fun a t => Yields (f a) t Q) : Yields (x >>= f) s Q := by
  intro b u hu
  obtain ⟨a, t, hx, hf⟩ := Run.ok_of_bind hu
  exact h a t hx b u hf

theorem map {x : Run α} {f : α → β} {Q : β → Store → Prop} (h : Yields x s fun a t => Q (f a) t) :
    Yields (f <$> x) s Q := by
  intro b u hu
  obtain ⟨a, hx, rfl⟩ := Run.ok_of_map hu
  exact h a u hx

/-- The rule for catching: the handler answers from wherever the computation raised. -/
theorem tryCatch {x : Run α} {h : Fault → Run α} (hx : Yields x s Q)
    (hh : ∀ e t, x.run.run s = (.error e, t) → Yields (h e) t Q) : Yields (tryCatch x h) s Q := by
  intro a u hu
  rw [Run.run_tryCatch] at hu
  rcases hr : x.run.run s with ⟨r, t⟩
  rw [hr] at hu
  cases r with
  | ok a' =>
    cases hu
    exact hx a u hr
  | error e => exact hh e t hr a u hu

/-- What a computation that only adds leaves. -/
theorem of_adding {m : Run α} [hm : Adding m] (hs : s.Coherent) :
    Yields m s fun _ t => t.Coherent ∧ s.Adds t := by
  intro a t ht
  have := hm.adds s hs
  rw [ht] at this
  exact this

end Yields

namespace Store

/-! ### The messages of a context -/

/-- The messages of context `c`. -/
def messagesAt (s : Store) (c : Nat) : List (String × String) := (at! s.contexts c).messages

/-- `s` with the messages of context `c` replaced by `m`. -/
def withMessages (s : Store) (c : Nat) (m : List (String × String)) : Store :=
  { s with contexts := s.contexts.setIfInBounds c { at! s.contexts c with messages := m } }

theorem messagesAt_withMessages {s : Store} {c : Nat} (hc : c < s.contexts.size)
    (m : List (String × String)) : (s.withMessages c m).messagesAt c = m := by
  simp [withMessages, messagesAt, hc]

theorem withMessages_ne {s : Store} {c j : Nat} (hj : c ≠ j) (m : List (String × String)) :
    (s.withMessages c m).contexts[j]? = s.contexts[j]? :=
  Array.getElem?_setIfInBounds_ne hj

theorem withMessages_withMessages {s : Store} {c : Nat} (hc : c < s.contexts.size)
    (m m' : List (String × String)) :
    (s.withMessages c m).withMessages c m' = s.withMessages c m' := by
  simp only [withMessages, at!_setIfInBounds, hc, and_self, if_true,
    Array.setIfInBounds_setIfInBounds]

theorem withMessages_self {s : Store} {c : Nat} (hc : c < s.contexts.size) :
    s.withMessages c (s.messagesAt c) = s := by
  have hat : at! s.contexts c = s.contexts[c] := by simp [at!, hc]
  have hset : s.contexts.setIfInBounds c
      { at! s.contexts c with messages := (at! s.contexts c).messages } = s.contexts := by
    rw [hat]
    simp only [Array.setIfInBounds, hc, dif_pos]
    exact Array.set_getElem_self _
  simp only [withMessages, messagesAt, hset]

/-- Messages read through a context that did not change. -/
theorem messagesAt_of_eq {s t : Store} {c : Nat} (h : t.contexts[c]? = s.contexts[c]?) :
    t.messagesAt c = s.messagesAt c := by
  simp only [messagesAt, at!, h]

/-! ### What a run keeps -/

/-- A run from `s` to `t` that answered at once kept the store in order and touched only what
it owns, for the caller's context `ctx`. -/
structure Keeps (ctx : Option Nat) (s t : Store) : Prop where
  steps : s.Steps t
  coherent : t.Coherent
  busy : ∀ (i : Nat) sid owned b, s.checks[i]? = some (.nested sid owned b) →
    t.checks[i]? = some (.nested sid owned b)
  frame : ∀ j, s.Free j → some j ≠ ctx → t.contexts[j]? = s.contexts[j]?

namespace Keeps

variable {ctx : Option Nat} {s t u : Store}

theorem refl (hs : s.Coherent) : s.Keeps ctx s :=
  ⟨.refl s, hs, fun _ _ _ _ h => h, fun _ _ _ => rfl⟩

/-- A context free before a run is free after it: its owners are busy again, and the checks the
run added own contexts it made. -/
theorem free (h : s.Keeps ctx t) {j : Nat} (hj : s.Free j) : t.Free j := by
  refine ⟨lt_of_lt_of_le hj.1 h.steps.ext.contexts_size, fun i sid b hi => ?_⟩
  by_cases his : i < s.checks.size
  · obtain ⟨b₀, hb₀⟩ := h.steps.ext.nested_of his hi
    have hb := h.busy i sid j b₀ hb₀
    rw [hi] at hb
    simp only [Option.some.injEq, Check.nested.injEq, true_and] at hb
    rw [hb]
    exact hj.2 i sid b₀ hb₀
  · exact absurd (h.steps.fresh i sid j b (by omega) hi) (by have := hj.1; omega)

theorem trans (h : s.Keeps ctx t) (h' : t.Keeps ctx u) : s.Keeps ctx u where
  steps := h.steps.trans h'.steps
  coherent := h'.coherent
  busy i sid owned b hi := h'.busy i sid owned b (h.busy i sid owned b hi)
  frame j hj hne := (h'.frame j (h.free hj) hne).trans (h.frame j hj hne)

/-- A run that touched no context keeps the store for any caller. -/
theorem of_none (h : s.Keeps none t) (ctx : Option Nat) : s.Keeps ctx t :=
  ⟨h.steps, h.coherent, h.busy, fun j hj _ => h.frame j hj (by simp)⟩

theorem of_adds (hc : t.Coherent) (h : s.Adds t) : s.Keeps ctx t :=
  ⟨h.steps, hc, fun i _ _ _ hi => h.checks i _ hi, fun j hj _ => h.contexts j _
    (Array.getElem?_eq_getElem hj.1) |>.trans (Array.getElem?_eq_getElem hj.1).symm⟩

/-- Changing the messages and hooks of the caller's context. -/
theorem set_context (hs : s.Coherent) {c : Nat} (hc : c < s.contexts.size) {x : Context}
    (hschema : x.schema = (at! s.contexts c).schema) (hm : Messages.Keyed x.messages) :
    s.Keeps (some c) { s with contexts := s.contexts.setIfInBounds c x } := by
  have hget : s.contexts[c]? = some (at! s.contexts c) := by simp [at!, hc]
  refine ⟨⟨⟨fun _ _ h => h, fun i c₀ h₀ => ?_, fun i c₀ h₀ => ⟨c₀, h₀, .refl c₀⟩⟩, ?_⟩,
    hs.set_context (fun c₀ h₀ => by rw [hget] at h₀; cases h₀; exact hschema) hm,
    fun _ _ _ _ h => h, fun j _ hj => Array.getElem?_setIfInBounds_ne (by simpa using hj.symm)⟩
  · by_cases hci : c = i
    · subst hci
      rw [hget] at h₀
      cases h₀
      exact ⟨x, Array.getElem?_setIfInBounds_self_of_lt hc, hschema⟩
    · exact ⟨c₀, by rw [Array.getElem?_setIfInBounds_ne hci, h₀], rfl⟩
  · exact (Steps.refl s).fresh

theorem withMessages (hs : s.Coherent) {c : Nat} (hc : c < s.contexts.size)
    {m : List (String × String)} (hm : Messages.Keyed m) : s.Keeps (some c) (s.withMessages c m) :=
  set_context hs hc rfl hm

end Keeps

/-- A run that answered at once and wrote `ws` into its caller's context `ctx`, where `A w ws`
holds in every window around it. -/
def Wrote (ctx : Option Nat) (s t : Store) (A : (Store → Prop) → List (String × String) → Prop) :
    Prop :=
  s.Keeps ctx t ∧ ∃ ws, Messages.Filled ws ∧ (∀ w, Spans w s t → A w ws) ∧
    ∀ c, ctx = some c → Messages.Same (t.messagesAt c) (Messages.putAll ws (s.messagesAt c))

namespace Wrote

variable {ctx : Option Nat} {s t u : Store}
  {A B C : (Store → Prop) → List (String × String) → Prop}

/-- Two runs, one after the other, write what the first wrote and then what the second did. -/
theorem seq (h : s.Wrote ctx t A) (h' : t.Wrote ctx u B)
    (hc : ∀ w ws ws', A w ws → B w ws' → C w (ws ++ ws')) : s.Wrote ctx u C := by
  obtain ⟨hk, ws, hf, ha, hm⟩ := h
  obtain ⟨hk', ws', hf', hb, hm'⟩ := h'
  refine ⟨hk.trans hk', ws ++ ws', hf.append hf', fun w hw => hc w ws ws'
    (ha w (hw.left hk'.steps.ext)) (hb w (hw.right hk.steps.ext)), fun c hc => ?_⟩
  rw [Messages.putAll_append]
  exact (hm' c hc).trans ((hm c hc).putAll ws')

theorem mono (h : s.Wrote ctx t A) (hab : ∀ w ws, A w ws → B w ws) : s.Wrote ctx t B := by
  obtain ⟨hk, ws, hf, ha, hm⟩ := h
  exact ⟨hk, ws, hf, fun w hw => hab w ws (ha w hw), hm⟩

/-- A run that wrote nothing. -/
theorem none (hk : s.Keeps ctx t) (ha : ∀ w, Spans w s t → A w [])
    (hm : ∀ c, ctx = some c → t.messagesAt c = s.messagesAt c) : s.Wrote ctx t A :=
  ⟨hk, [], (fun _ h => by cases h), ha, fun c hc => by rw [hm c hc]; rfl⟩

/-- A run that changed nothing. -/
theorem rfl' (hs : s.Coherent) (ha : ∀ w, Spans w s s → A w []) : s.Wrote ctx s A :=
  none (.refl hs) ha fun _ _ => rfl

/-- Replacing the caller's messages by a map that reads as `ws` written over them. -/
theorem withMessages (hs : s.Coherent) {c : Nat} (hc : c < s.contexts.size)
    {n ws : List (String × String)} (hn : Messages.Keyed n) (hws : Messages.Filled ws)
    (hsame : Messages.Same n (Messages.putAll ws (s.messagesAt c)))
    (ha : ∀ w, Spans w s (s.withMessages c n) → A w ws) : s.Wrote (some c) (s.withMessages c n) A :=
  ⟨Keeps.withMessages hs hc hn, ws, hws, ha, fun _ h => by
    cases h
    rw [messagesAt_withMessages hc]
    exact hsame⟩

/-- With no caller's context, whatever a run writes is lost. -/
theorem of_none (hk : s.Keeps .none t) {ws : List (String × String)} (hws : Messages.Filled ws)
    (ha : ∀ w, Spans w s t → A w ws) : s.Wrote .none t A :=
  ⟨hk, ws, hws, ha, fun _ h => by cases h⟩

theorem mono_spans (h : s.Wrote ctx t A) (hab : ∀ w ws, Spans w s t → A w ws → B w ws) :
    s.Wrote ctx t B := by
  obtain ⟨hk, ws, hf, ha, hm⟩ := h
  exact ⟨hk, ws, hf, fun w hw => hab w ws hw (ha w hw), hm⟩

/-- A run that touched no context, then one that wrote. -/
theorem keeps_then (hk : s.Keeps .none t) (hctx : ∀ c, ctx = some c → s.Free c)
    (h : t.Wrote ctx u A) : s.Wrote ctx u A := by
  obtain ⟨hk', ws, hf, ha, hm⟩ := h
  refine ⟨(hk.of_none ctx).trans hk', ws, hf, fun w hw => ha w (hw.right hk.steps.ext),
    fun c hc => ?_⟩
  rw [← Store.messagesAt_of_eq (hk.frame c (hctx c hc) (by simp))]
  exact hm c hc

/-- A run that wrote, then one that touched no context. -/
theorem then_keeps (h : s.Wrote ctx t A) (hk : t.Keeps .none u)
    (hctx : ∀ c, ctx = some c → s.Free c) : s.Wrote ctx u A := by
  obtain ⟨hk₀, ws, hf, ha, hm⟩ := h
  refine ⟨hk₀.trans (hk.of_none ctx), ws, hf, fun w hw => ha w (hw.left hk.steps.ext),
    fun c hc => ?_⟩
  rw [Store.messagesAt_of_eq (hk.frame c (hk₀.free (hctx c hc)) (by simp))]
  exact hm c hc

end Wrote

end Store

/-! ### The store operations of the runner -/

theorem Context.setMessages_run (c : Nat) (m : List (String × String)) (s : Store) :
    (Context.setMessages c m).run.run s = (.ok (), s.withMessages c m) := rfl

/-- Writing every field's code settles them into the context's messages. -/
theorem Run.apply_run (ctx : Nat) (codes : List (String × Value)) (s : Store) :
    (Run.apply ctx codes).run.run s =
      (.ok (Messages.settle codes (s.messagesAt ctx)).isEmpty,
        s.withMessages ctx (Messages.settle codes (s.messagesAt ctx))) := rfl

theorem Run.setBusy_run {s : Store} {node sid owned : Nat} {b : Bool}
    (h : s.checks[node]? = some (.nested sid owned b)) (busy : Bool) :
    (Run.setBusy node busy).run.run s =
      (.ok (), { s with checks := s.checks.setIfInBounds node (.nested sid owned busy) }) := by
  unfold Run.setBusy
  rw [Run.run_bind_of_eq (Store.run_check node s), Store.at!_of_getElem? h]
  rfl

theorem Context.hasField_run (c : Nat) (name : String) (s : Store) :
    (Context.hasField c name).run.run s =
      (.ok ((Store.at! s.schemas (Store.at! s.contexts c).schema).fields.any (·.1 == name)), s) :=
  rfl

/-- Setting a path to non-empty text, when accepted, writes it. -/
theorem Context.setMessage_yields {c : Nat} {p code : String} (hcode : code ≠ "") (s : Store) :
    Yields (Context.setMessage c (.str p) (.str code)) s
      fun _ t => t = s.withMessages c (Messages.put p code (s.messagesAt c)) := by
  unfold Context.setMessage
  dsimp only
  refine Yields.bind (Yields.of_eq (Context.hasField_run c _ s) fun b hb => ?_)
  cases hb
  split
  · exact Yields.bind (Yields.throw _)
  · refine Yields.bind (Yields.read ?_)
    rw [if_neg (by simpa using hcode)]
    exact Yields.of_eq (Context.setMessages_run _ _ _) fun _ _ => rfl

/-- Copying a filled map into context `c` under `path`, when accepted, writes its entries in
order. -/
theorem Run.copy_yields {c : Nat} (path : String) :
    ∀ (m : List (String × String)) (s : Store), Messages.Filled m → c < s.contexts.size →
      Yields (forIn m PUnit.unit fun x _ => do
          Context.setMessage c (.str (path ++ "." ++ x.1)) (.str x.2)
          pure (ForInStep.yield PUnit.unit)) s
        fun _ t => t = s.withMessages c
          (Messages.putAll (m.map fun e => (path ++ "." ++ e.1, e.2)) (s.messagesAt c))
  | [], s, _, hc => Yields.pure (Store.withMessages_self hc).symm
  | e :: m, s, hm, hc => by
    rw [List.forIn_cons]
    refine Yields.bind (Yields.bind ((Context.setMessage_yields (hm e List.mem_cons_self) s).mono
      fun _ t ht => Yields.pure ?_))
    subst ht
    have hc' : c < (s.withMessages c (Messages.put (path ++ "." ++ e.1) e.2 (s.messagesAt c))).contexts.size := by
      simpa [Store.withMessages] using hc
    refine (Run.copy_yields path m _ (fun x hx => hm x (List.mem_cons_of_mem _ hx)) hc').mono
      fun _ u hu => ?_
    rw [hu, Store.withMessages_withMessages hc, Store.messagesAt_withMessages hc]
    rfl

/-- A loop whose every step yields at once and leaves the store alone folds over its list. -/
theorem Run.forIn_run {γ β : Type} (f : γ → β → Run (ForInStep β)) (g : γ → β → β) (s : Store)
    (hf : ∀ x b, (f x b).run.run s = (.ok (.yield (g x b)), s)) :
    ∀ (xs : List γ) (b : β), (forIn xs b f).run.run s = (.ok (xs.foldl (fun b x => g x b) b), s) := by
  intro xs
  induction xs with
  | nil => intro b; rfl
  | cons x xs ih =>
    intro b
    rw [List.forIn_cons, Run.run_bind_of_eq (hf x b)]
    exact ih (g x b)

/-- Marking the keys that name no field writes their marks in order. -/
theorem Messages.foldl_marks (naming : Naming) (names : List String) :
    ∀ (es : List (Value × Value)) (m : List (String × String)),
      es.foldl (fun m x => if (!Run.namesField names x.1) = true
          then Messages.put (x.1.plain naming) "notInSchema" m else m) m =
        Messages.putAll (Messages.notIn naming names es) m
  | [], m => rfl
  | x :: es, m => by
    rw [List.foldl_cons, Messages.foldl_marks naming names es]
    unfold Messages.notIn
    rw [List.filterMap_cons]
    by_cases hx : Run.namesField names x.1 = true
    · simp [hx]
    · simp only [hx, Bool.not_false, if_true]
      rfl

end Schematic
