import Mathlib
import Schematic.Proofs.Yields
import Schematic.Proofs.Faults

/-!
# The runner agrees with its declarative account

Every function of the check runner that answers at once answers what the relations of `Answers`
say, and writes into its caller's context exactly the entries they list (`RunAgrees`). The
proof is one induction on the depth, with one lemma per function, and one case per kind of
check in `check_succ`.

Two facts carry it. A run keeps the store coherent and leaves every free context other than its
caller's as it was (`Store.Keeps`), so the context a nested check runs in, its own while the
check is not busy or a fresh one, is written by that run alone and starts from no state that
matters: whatever stale entries it held are dropped or overwritten (`start_succ`). And a nested
check restores its flag when it is done, so the run that entered it leaves every flag as it
found it (`Store.Keeps.nested`).

The result for a whole validation is `Run.validate_leaves`: from a coherent store, a context
free for its caller ends with the map `Leaves` gives, and answers whether that map is empty.
-/

namespace Schematic

namespace Store

/-- Refining one check is a step of a run. -/
theorem Steps.set_check {t : Store} {i : Nat} {c c' : Check} (h : t.checks[i]? = some c)
    (hr : c.Refines c') : t.Steps { t with checks := t.checks.setIfInBounds i c' } := by
  refine ⟨⟨fun _ _ hx => hx, fun _ x hx => ⟨x, hx, rfl⟩, fun j x hx => ?_⟩, fun j _ _ _ hj hx => ?_⟩
  · by_cases hij : i = j
    · subst hij
      rw [h] at hx
      cases hx
      exact ⟨c', Array.getElem?_setIfInBounds_self_of_lt (Array.getElem?_eq_some_iff.mp h).1, hr⟩
    · exact ⟨x, by rw [Array.getElem?_setIfInBounds_ne hij, hx], .refl x⟩
  · have := (Array.getElem?_eq_some_iff.mp hx).1
    simp only [Array.size_setIfInBounds] at this
    omega

namespace Keeps

/-- Building the check of a lazy tag touches no context. -/
theorem set_lazy {t : Store} (ht : t.Coherent) {node lid : Nat} {field : Option String}
    {spec : Spec} {owner : Option Nat}
    (h : t.checks[node]? = some (.lazy lid field spec owner none)) (n : Nat) :
    t.Keeps .none { t with checks := t.checks.setIfInBounds node (.lazy lid field spec owner (some n)) } := by
  refine ⟨.set_check h ⟨some n, rfl⟩, ht.set_check h fun _ _ _ hc => (by cases hc),
    fun i sid owned b hi => ?_, fun _ _ _ => rfl⟩
  have hne : node ≠ i := by
    rintro rfl
    rw [h] at hi
    cases hi
  rw [Array.getElem?_setIfInBounds_ne hne]
  exact hi

/-- Building the check of a lazy tag and recording it, after steps that only added to the
store, touches no context. -/
theorem build_lazy {s t : Store} (ht : t.Coherent) (hst : s.Adds t) {node lid : Nat}
    {field : Option String} {spec : Spec} {owner : Option Nat}
    (h : s.checks[node]? = some (.lazy lid field spec owner none)) (n : Nat) :
    s.Keeps .none { t with checks := t.checks.setIfInBounds node (.lazy lid field spec owner (some n)) } :=
  (Store.Keeps.of_adds ht hst).trans (set_lazy ht (hst.checks _ _ h) n)

/-- A nested check's run, seen from its caller: the check's flag is back as it was, and the
context the nested run used is neither the caller's nor any other free one. -/
theorem nested {s s₂ t : Store} {node sid owned inner : Nat} {busy : Bool}
    (hnode : s.checks[node]? = some (.nested sid owned busy)) (hstep : s.Steps s₂)
    (hchecks : s₂.checks = s.checks.setIfInBounds node (.nested sid owned true))
    (hframe : ∀ j, s.Free j → j ≠ inner ∧ s₂.Free j ∧ s₂.contexts[j]? = s.contexts[j]?)
    (hk : s₂.Keeps (some inner) t) :
    s.Keeps .none { t with checks := t.checks.setIfInBounds node (.nested sid owned busy) } := by
  have hlt : node < s.checks.size := (Array.getElem?_eq_some_iff.mp hnode).1
  have ht : t.checks[node]? = some (.nested sid owned true) :=
    hk.busy node sid owned true (by rw [hchecks]; exact Array.getElem?_setIfInBounds_self_of_lt hlt)
  refine ⟨hstep.trans (hk.steps.trans (.set_check ht ⟨busy, rfl⟩)),
    hk.coherent.set_check ht fun _ _ _ h => by cases h; exact ⟨true, rfl⟩,
    fun i sid' owned' b hi => ?_, fun j hj _ => ?_⟩
  · by_cases hin : node = i
    · subst hin
      rw [hnode] at hi
      cases hi
      exact Array.getElem?_setIfInBounds_self_of_lt (Array.getElem?_eq_some_iff.mp ht).1
    · rw [Array.getElem?_setIfInBounds_ne hin]
      exact hk.busy i sid' owned' b (by rw [hchecks, Array.getElem?_setIfInBounds_ne hin]; exact hi)
  · obtain ⟨hne, hfree, hsame⟩ := hframe j hj
    exact (hk.frame j hfree (by simpa using hne)).trans hsame

end Keeps

namespace Wrote

variable {ctx : Option Nat} {s t : Store} {A : (Store → Prop) → List (String × String) → Prop}

theorem ext (h : s.Wrote ctx t A) : s.Ext t := h.1.steps.ext

/-- A run that touched no context wrote nothing into its caller's. -/
theorem of_keeps (hk : s.Keeps .none t) (hctx : ∀ c, ctx = some c → s.Free c)
    (ha : ∀ w, Spans w s t → A w []) : s.Wrote ctx t A :=
  .none (hk.of_none ctx) ha fun c hc => messagesAt_of_eq (hk.frame c (hctx c hc) (by simp))

end Wrote

end Store

namespace Run

/-- A check read through its handle, when it is not the default one, is in the store. -/
theorem getElem?_of_at! {s : Store} {node : Nat} {c : Check} (h : Store.at! s.checks node = c)
    (hc : c ≠ default) : s.checks[node]? = some c := by
  rcases hs : s.checks[node]? with _ | c'
  · simp only [Store.at!, hs, Option.getD_none] at h
    exact absurd h.symm hc
  · rw [Store.at!_of_getElem? hs] at h
    rw [h]

/-- Entering a nested check from a coherent store: the check is marked busy, and the context it
runs in, its own or a fresh one while its own is busy, is free and of the nested schema; no
other free context changes. -/
structure Entered (s : Store) (node sid owned inner : Nat) (s₂ : Store) : Prop where
  coherent : s₂.Coherent
  free : s₂.Free inner
  schema : (Store.at! s₂.contexts inner).schema = sid
  steps : s.Steps s₂
  checks : s₂.checks = s.checks.setIfInBounds node (.nested sid owned true)
  frame : ∀ j, s.Free j → j ≠ inner ∧ s₂.Free j ∧ s₂.contexts[j]? = s.contexts[j]?

/-- A context free before a nested check is marked busy is free after. -/
theorem free_of_mark {s t : Store} {node sid owned j : Nat} (hj : s.Free j)
    (hsize : s.contexts.size ≤ t.contexts.size)
    (hchecks : t.checks = s.checks.setIfInBounds node (.nested sid owned true)) : t.Free j := by
  refine ⟨lt_of_lt_of_le hj.1 hsize, fun i sid' b hi => ?_⟩
  rw [hchecks, Array.getElem?_setIfInBounds] at hi
  split at hi
  · split at hi
    · cases hi
      rfl
    · cases hi
  · exact hj.2 i sid' b hi

theorem enter_bind {β : Type} {s : Store} {node sid owned : Nat} {busy : Bool}
    (hs : s.Coherent) (hnode : s.checks[node]? = some (.nested sid owned busy)) {k : Nat → Run β}
    {Q : β → Store → Prop} (hk : ∀ inner s₂, Entered s node sid owned inner s₂ → Yields (k inner) s₂ Q) :
    Yields (do
      let inner ← if busy then Context.create sid else pure owned
      Store.setCheck node (.nested sid owned true)
      k inner) s Q := by
  cases busy with
  | true =>
    -- the owned context is busy: a fresh one, which no check owns
    refine Yields.bind (Yields.of_eq (Store.run_addContext _ s) fun _ ha => ?_)
    cases ha
    refine Yields.bind (Yields.of_eq (Store.run_setCheck _ _ _) fun _ _ => hk _ _ ?_)
    have hpush := hs.push_context (c := { schema := sid }) Messages.Keyed.nil
    refine ⟨hpush.set_check hnode fun _ _ _ h => by cases h; exact ⟨true, rfl⟩,
      ⟨by simp, fun i sid' b hi => ?_⟩, by simp [Store.at!], ?_, rfl, fun j hj => ?_⟩
    · rw [Array.getElem?_setIfInBounds] at hi
      split at hi
      · split at hi
        · cases hi
          rfl
        · cases hi
      · exact absurd (hs.owned_lt hi) (lt_irrefl _)
    · exact (Store.adds_push_context s _).steps.trans (.set_check hnode ⟨true, rfl⟩)
    · refine ⟨fun h => absurd (h ▸ hj.1) (lt_irrefl _), free_of_mark hj (by simp) rfl, ?_⟩
      simp only [Array.getElem?_push, if_neg (Nat.ne_of_lt hj.1)]
  | false =>
    -- the owned context: free now that its only owner is marked busy
    refine Yields.bind (Yields.pure (Yields.bind (Yields.of_eq (Store.run_setCheck _ _ _)
      fun _ _ => hk _ _ ?_)))
    obtain ⟨cx, hcx, hsid⟩ := hs.owned node sid owned false hnode
    refine ⟨hs.set_check hnode fun _ _ _ h => by cases h; exact ⟨false, rfl⟩,
      ⟨hs.owned_lt hnode, fun i sid' b hi => ?_⟩, by simpa [Store.at!, hcx] using hsid,
      .set_check hnode ⟨true, rfl⟩, rfl, fun j hj => ⟨?_, free_of_mark hj le_rfl rfl, rfl⟩⟩
    · rw [Array.getElem?_setIfInBounds] at hi
      split at hi
      · split at hi
        · cases hi
          rfl
        · cases hi
      · rename_i hne
        exact absurd (hs.unique node i sid sid' owned false b hnode hi) hne
    · rintro rfl
      exact absurd (hj.2 node sid false hnode) (by simp)

/-- Ending a nested check: the flag it had is restored, and a nested map `m` the nested run found
invalid is copied under `path` into the caller's context, if any. -/
theorem release_wrote {u : Store} (hu : u.Coherent) {node sid owned : Nat}
    (hnode : u.checks[node]? = some (.nested sid owned true)) (reentrant : Bool)
    {ctx : Option Nat} (hctx : ∀ c, ctx = some c → c < u.contexts.size) (path : String)
    (nested : Nat) {m : List (String × String)} (hsame : Messages.Same (u.messagesAt nested) m)
    (hm : Messages.Filled m) (hkeyed : Messages.Keyed m) (valid : Value) :
    Yields (release node reentrant ctx path nested valid) u fun o t =>
      o = .now (if valid.truthy then .none else invalid) ∧
      Store.Wrote ctx { u with checks := u.checks.setIfInBounds node (.nested sid owned reentrant) } t
        fun _ ws => ws = if valid.truthy then [] else Messages.copies path m := by
  unfold release
  refine Yields.bind (Yields.of_eq (setBusy_run hnode reentrant) fun _ _ => ?_)
  dsimp only
  have hcoh : Store.Coherent
      { u with checks := u.checks.setIfInBounds node (.nested sid owned reentrant) } :=
    hu.set_check hnode fun _ _ _ h => by cases h; exact ⟨true, rfl⟩
  by_cases hvalid : valid.truthy = true
  · rw [if_pos hvalid]
    exact Yields.pure ⟨by rw [if_pos hvalid], .rfl' hcoh fun _ _ => by rw [if_pos hvalid]⟩
  rw [if_neg hvalid]
  simp only [hvalid, if_false, Bool.false_eq_true]
  have hfilled : Messages.Filled (Messages.copies path m) := by
    unfold Messages.copies
    split
    · exact fun _ h => by cases h
    · intro e he
      obtain ⟨x, hx, rfl⟩ := List.mem_map.mp he
      exact hm x hx
  rcases ctx with _ | c
  · exact Yields.pure ⟨rfl, .of_none (.refl hcoh) hfilled fun _ _ => rfl⟩
  dsimp only
  by_cases hpath : path.isEmpty = true
  · -- nothing is copied under an empty path
    rw [if_neg (by simp [hpath])]
    refine Yields.pure ⟨rfl, .rfl' hcoh fun _ _ => ?_⟩
    simp [Messages.copies, hpath]
  rw [if_pos (by simpa using hpath)]
  refine Yields.bind (Yields.read (Yields.bind ((copy_yields path _ _ ?_ ?_).mono
    fun _ t ht => Yields.pure ?_)))
  · exact Messages.Filled.of_same (hu.keyed_at nested) hsame hm
  · exact hctx c rfl
  · subst ht
    have hc : c < u.contexts.size := hctx c rfl
    have hcopies : Messages.copies path m = m.map fun e => (path ++ "." ++ e.1, e.2) := by
      simp [Messages.copies, hpath]
    refine ⟨rfl, .withMessages hcoh hc ((hcoh.keyed_at c).putAll _) hfilled ?_ fun _ _ => rfl⟩
    rw [hcopies]
    exact Messages.putAll_map_same (fun a b h => (String.append_right_inj (path ++ ".")).mp h)
      hsame (hu.keyed_at nested) hkeyed _

/-! ### The induction -/

/-! ### The loops of the runner agree with `Answers` when the call they repeat does -/

/-- Trying union candidates, each candidate's check agreeing with `Answers`, keeps the store and
tries the candidates as `Tries` says. -/
theorem attempts_agrees {run : Nat → Run Outcome} {v : Value} {path : String}
    (hrun : ∀ node (s : Store), s.Coherent → Yields (run node) s fun o t => ∀ code,
      o = .now code → s.Wrote none t fun w ws => Answer w node v path code ws)
    (all rest : List (Option Bool × Nat)) :
    ∀ (i : Nat) (error : Value) (s : Store), s.Coherent →
      Yields (Run.attempts run all v path i rest error) s fun o t => ∀ code, o = .now code →
        s.Keeps .none t ∧ ∀ w, Spans w s t → Tries w rest v path error code := by
  induction rest with
  | nil =>
    intro i error s hs
    rw [Run.attempts.eq_1]
    exact Yields.pure fun code h => by cases h; exact ⟨.refl hs, fun _ _ => .nil⟩
  | cons candidate more ih =>
    obtain ⟨nullable, node⟩ := candidate
    intro i error s hs
    rw [Run.attempts.eq_def]
    dsimp only
    -- once a candidate has answered, the rest of the union runs from the store it left
    have hnow : ∀ (code : Value) (t : Store), s.Keeps .none t →
        (∀ w, Spans w s t → Candidate w nullable node v path code) →
        Yields (if (!code.truthy) = true then pure (.now .none)
          else Run.attempts run all v path (i + 1) more
            (if (!error.truthy && !code.same invalidType) = true then code else error)) t
          fun o u => ∀ c, o = .now c →
            s.Keeps .none u ∧ ∀ w, Spans w s u → Tries w ((nullable, node) :: more) v path error c := by
      intro code t hk hc
      split
      · rename_i hpass
        exact Yields.pure fun c h => by
          cases h
          exact ⟨hk, fun w hw => .pass (hc w hw) (by simpa using hpass)⟩
      · rename_i hfail
        refine (ih (i + 1) _ t hk.coherent).mono fun o u hu c hoc => ?_
        obtain ⟨hk', ht⟩ := hu c hoc
        exact ⟨hk.trans hk', fun w hw => .next (hc w (hw.left hk'.steps.ext)) (by simpa using hfail)
          (ht w (hw.right hk.steps.ext))⟩
    split
    · exact Yields.bind (Yields.pure (hnow _ s (.refl hs) fun _ _ => .none))
    · rename_i hv
      refine Yields.bind ((hrun node s hs).mono fun o t ho => ?_)
      rcases o with code | k
      · obtain ⟨hk, ws, -, ha, -⟩ := ho code rfl
        exact hnow code t hk fun w hw => .some hv (ha w hw)
      · exact Yields.pure fun _ h => by cases h

/-- Checking array elements, the element check agreeing with `Answers` at every element's path,
writes into the caller's context what `Each` says. -/
theorem elements_agrees {run : Value → String → Run Outcome} {element : Nat}
    {ctx : Option Nat} {path : String}
    (hrun : ∀ x i (s : Store), s.Coherent → (∀ c, ctx = some c → s.Free c) →
      Yields (run x (elementPath path i)) s fun o t => ∀ code, o = .now code →
        s.Wrote ctx t fun w ws => Answer w element x (elementPath path i) code ws)
    (items rest : List Value) :
    ∀ (i : Nat) (failed : Value) (s : Store), s.Coherent → (∀ c, ctx = some c → s.Free c) →
      Yields (Run.elements run element items ctx path i rest failed) s fun o t => ∀ code,
        o = .now code → s.Wrote ctx t fun w ws => Each w element rest path i failed code ws := by
  induction rest with
  | nil =>
    intro i failed s hs _
    rw [Run.elements.eq_1]
    exact Yields.pure fun code h => by cases h; exact .rfl' hs fun _ _ => .nil
  | cons x more ih =>
    intro i failed s hs hctx
    rw [Run.elements.eq_2]
    refine Yields.bind ((hrun x i s hs hctx).mono fun o t ho => ?_)
    rcases o with code | k
    · have hw := ho code rfl
      refine (ih (i + 1) _ t hw.1.coherent fun c hc => hw.1.free (hctx c hc)).mono
        fun o u hu c hc => ?_
      exact hw.seq (hu c hc) fun _ _ _ ha he => .cons ha he
    · exact Yields.pure fun _ h => by cases h

/-- Running a schema's fields, each validator agreeing with `Answers`, answers each field's code
once none is pending and writes what `FieldAnswers` says. -/
theorem fields_agrees {run : Validator → Value → Run Outcome} {ctx : Nat}
    (hrun : ∀ val x (s : Store), s.Coherent → s.Free ctx → Yields (run val x) s fun o t =>
      ∀ code, o = .now code →
        s.Wrote (some ctx) t fun w ws => ValidatorAnswer w val x (val.field.getD "") code ws)
    (es : List (Value × Value)) (fs : List (String × Field)) :
    ∀ s : Store, s.Coherent → s.Free ctx → (∀ f ∈ fs, f.2.validator.field = some f.1) →
      Yields (Run.fields run es fs) s fun rs t => (∀ x ∈ rs, Outcome.isLater x.2 = false) →
        ∃ codes, rs = codes.map (fun x => (x.1, .now x.2)) ∧
          s.Wrote (some ctx) t fun w ws => FieldAnswers w fs es codes ws := by
  induction fs with
  | nil =>
    intro s hs _ _
    rw [Run.fields.eq_1]
    exact Yields.pure fun _ => ⟨[], rfl, .rfl' hs fun _ _ => .nil⟩
  | cons field rest ih =>
    obtain ⟨name, f⟩ := field
    intro s hs hfree hnamed
    rw [Run.fields.eq_2]
    have hname : f.validator.field.getD "" = name := by
      rw [hnamed (name, f) List.mem_cons_self]
      rfl
    refine Yields.bind ((hrun _ _ s hs hfree).mono fun o t ho => ?_)
    rcases o with code | k
    · have hw := ho code rfl
      refine Yields.bind ((ih t hw.1.coherent (hw.1.free hfree)
        fun f hf => hnamed f (List.mem_cons_of_mem _ hf)).mono fun rs u hu => Yields.pure fun hall => ?_)
      obtain ⟨codes, rfl, hw'⟩ := hu fun x hx => hall x (List.mem_cons_of_mem _ hx)
      exact ⟨(name, code) :: codes, rfl, hw.seq hw' fun _ _ _ hv hr => .cons (hname ▸ hv) hr⟩
    · -- a pending field makes the whole list pending
      exact Yields.bind fun _ _ _ => Yields.pure fun hall =>
        absurd (hall _ List.mem_cons_self) (by simp [Outcome.isLater])

/-- At depth `d`, every function of the check runner that answers at once, run from a coherent
store with its caller's context free, agrees with `Answers` and writes what it says into that
context. -/
structure RunAgrees (d : Nat) : Prop where
  check : ∀ node v ctx path (s : Store), s.Coherent → (∀ c, ctx = some c → s.Free c) →
    Yields (check d node v ctx path) s fun o t => ∀ code, o = .now code →
      s.Wrote ctx t fun w ws => Answer w node v path code ws
  context : ∀ ctx es (s : Store), s.Coherent → s.Free ctx →
    Yields (context d ctx (.dict es)) s fun o t => ∀ code, o = .now code →
      s.Keeps (some ctx) t ∧ ∃ m, (∀ w, Spans w s t → Leaves w (Store.at! s.contexts ctx).schema es m) ∧
        Messages.Same (t.messagesAt ctx) m ∧ Messages.Filled m ∧ code = .bool m.isEmpty
  start : ∀ ctx es (s : Store), s.Coherent → s.Free ctx →
    Yields (start d ctx (.dict es)) s fun rs t => (∀ x ∈ rs, Outcome.isLater x.2 = false) →
      s.Keeps (some ctx) t ∧ ∃ codes m, rs = codes.map (fun x => (x.1, .now x.2)) ∧
        (∀ w, Spans w s t → Leaves w (Store.at! s.contexts ctx).schema es m) ∧
        Messages.Same (Messages.settle codes (t.messagesAt ctx)) m ∧ Messages.Filled m
  validator : ∀ val v ctx (s : Store), s.Coherent → (∀ c, ctx = some c → s.Free c) →
    Yields (validator d val v ctx) s fun o t => ∀ code, o = .now code →
      s.Wrote ctx t fun w ws => ValidatorAnswer w val v (val.field.getD "") code ws

namespace RunAgrees

variable {d : Nat}

theorem validator_succ (ih : RunAgrees d) (val : Validator) (v : Value) (ctx : Option Nat)
    (s : Store) (hs : s.Coherent) (hctx : ∀ c, ctx = some c → s.Free c) :
    Yields (Run.validator (d + 1) val v ctx) s fun o t => ∀ code, o = .now code →
      s.Wrote ctx t fun w ws => ValidatorAnswer w val v (val.field.getD "") code ws := by
  rw [Run.validator.eq_def]
  dsimp only
  -- the validator passes its check's code on, unless it always answers later
  have hnow : ∀ (code : Value) (t : Store) (A : (Store → Prop) → List (String × String) → Prop),
      s.Wrote ctx t A →
      (val.alwaysPending = false → ∀ w ws, A w ws → ValidatorAnswer w val v (val.field.getD "") code ws) →
      Yields (if val.alwaysPending = true then (pure (.later (.settled code)) : Run Outcome)
        else pure (.now code)) t fun o u => ∀ c, o = .now c →
          s.Wrote ctx u fun w ws => ValidatorAnswer w val v (val.field.getD "") c ws := by
    intro code t A hw hA
    split
    · exact Yields.pure fun _ h => by cases h
    · rename_i hp
      exact Yields.pure fun c h => by
        cases h
        exact hw.mono (hA (by simpa using hp))
  split
  · exact Yields.bind (Yields.pure (hnow _ s (fun _ ws => ws = []) (.rfl' hs fun _ _ => rfl)
      fun hp _ _ h => h ▸ .missing hp))
  · split
    · rename_i hoffers
      refine Yields.bind ((ih.check _ _ _ _ s hs hctx).mono fun o t ho => ?_)
      rcases o with code | k
      · exact hnow code t _ (ho code rfl) fun hp _ _ ha => .checked hp (by simp) (fun _ => hoffers) ha
      · exact Yields.pure fun _ h => by cases h
    · rename_i hoffers
      exact Yields.bind (Yields.pure (hnow _ s (fun _ ws => ws = []) (.rfl' hs fun _ _ => rfl)
        fun hp _ _ h => h ▸ .null hp (by simpa using hoffers)))
  · rename_i hmissing hnone
    refine Yields.bind ((ih.check _ _ _ _ s hs hctx).mono fun o t ho => ?_)
    rcases o with code | k
    · exact hnow code t _ (ho code rfl) fun hp _ _ ha =>
        .checked hp hmissing (fun h => absurd h hnone) ha
    · exact Yields.pure fun _ h => by cases h

theorem start_succ (ih : RunAgrees d) (ctx : Nat) (es : List (Value × Value)) (s : Store)
    (hs : s.Coherent) (hfree : s.Free ctx) :
    Yields (Run.start (d + 1) ctx (.dict es)) s fun rs t => (∀ x ∈ rs, Outcome.isLater x.2 = false) →
      s.Keeps (some ctx) t ∧ ∃ codes m, rs = codes.map (fun x => (x.1, .now x.2)) ∧
        (∀ w, Spans w s t → Leaves w (Store.at! s.contexts ctx).schema es m) ∧
        Messages.Same (Messages.settle codes (t.messagesAt ctx)) m ∧ Messages.Filled m := by
  rw [Run.start.eq_2]
  refine Yields.bind (Yields.read ?_)
  dsimp only
  refine Yields.bind (Yields.pure (Yields.bind (Yields.read ?_)))
  generalize hcx : Store.at! s.contexts ctx = cx
  generalize hsch : Store.at! s.schemas cx.schema = sch
  -- marking the keys that name no field only reads the store
  refine Yields.bind (Yields.of_eq (forIn_run _ (fun x m =>
    if (!namesField (sch.fields.map (·.1)) x.1) = true
    then Messages.put (x.1.plain (Store.namingIn s)) "notInSchema" m else m) s (fun x m => ?_) es _)
    fun m hm => ?_)
  · split <;> rfl
  cases hm
  rw [Messages.foldl_marks]
  refine Yields.bind (Yields.of_eq (Store.run_setContext _ _ _) fun _ _ => ?_)
  -- the context now holds the marks, over the entries it had for the schema's fields
  set names := sch.fields.map (·.1)
  set notIn := Messages.notIn (Store.namingIn s) names es
  set kept := cx.messages.filter fun x => names.contains x.1
  have hctx : ctx < s.contexts.size := hfree.1
  have hk₀ : s.Keeps (some ctx)
      { s with contexts := s.contexts.setIfInBounds ctx ⟨cx.schema, Messages.putAll notIn kept, []⟩ } :=
    .set_context hs hctx (by rw [hcx]) (((hcx ▸ hs.keyed_at ctx).filter _).putAll _)
  refine (fields_agrees (fun val x t ht hf => ih.validator val x (some ctx) t ht
    fun c hc => by cases hc; exact hf) es sch.fields _ hk₀.coherent (hk₀.free hfree)
    (hsch ▸ hs.named_at _)).mono fun rs t ht hall => ?_
  obtain ⟨codes, rfl, hk, ws, hws, hfa, hmsg⟩ := ht hall
  have hst : s.Ext t := (hk₀.trans hk).steps.ext
  refine ⟨hk₀.trans hk, codes, Messages.settle codes (Messages.putAll (notIn ++ ws) []), rfl,
    fun w hw => .mk ⟨s, hw.start hst, hsch⟩ ⟨s, hw.start hst, rfl⟩ (hfa w (hw.right hk₀.steps.ext)),
    ?_, ((Messages.Filled.putAll (fun _ h => by cases h)
      ((Messages.notIn_filled _ _ _).append hws)).settle codes)⟩
  -- the entries kept from before are all overwritten by the fields' own codes
  refine ((hmsg ctx rfl).settle codes).trans (Messages.settle_same_of_fields fun k hk => ?_)
  have hkept : Messages.get? k kept = none := by
    rw [(hfa _ (Spans.between _ _)).names] at hk
    rw [Messages.get?_filter, if_neg fun h => hk (List.contains_iff_mem.mp h)]
  simp only [Store.messagesAt, Store.at!_setIfInBounds, hctx, and_self, if_true,
    Messages.putAll_append, Messages.get?_putAll, hkept, Messages.get?_nil]

theorem context_succ (ih : RunAgrees d) (ctx : Nat) (es : List (Value × Value)) (s : Store)
    (hs : s.Coherent) (hfree : s.Free ctx) :
    Yields (Run.context (d + 1) ctx (.dict es)) s fun o t => ∀ code, o = .now code →
      s.Keeps (some ctx) t ∧ ∃ m, (∀ w, Spans w s t → Leaves w (Store.at! s.contexts ctx).schema es m) ∧
        Messages.Same (t.messagesAt ctx) m ∧ Messages.Filled m ∧ code = .bool m.isEmpty := by
  rw [Run.context.eq_2]
  refine Yields.bind ((ih.start ctx es s hs hfree).mono fun rs t ht => ?_)
  split
  · exact Yields.pure fun _ h => by cases h
  rename_i hany
  obtain ⟨hk, codes, m, rfl, hl, hsame, hfill⟩ := ht fun x hx => by
    simp only [List.any_eq_true, not_exists, not_and, Bool.not_eq_true] at hany
    exact hany x hx
  refine Yields.bind (Yields.of_eq (apply_run ctx _ t) fun b hb => Yields.pure fun code hcode => ?_)
  cases hb
  cases hcode
  simp only [List.map_map, Function.comp_def, Prod.mk.eta, List.map_id']
  have hctx : ctx < t.contexts.size := lt_of_lt_of_le hfree.1 hk.steps.ext.contexts_size
  have hk' := Store.Keeps.withMessages hk.coherent hctx ((hk.coherent.keyed_at ctx).settle codes)
  refine ⟨hk.trans hk', m, fun w hw => hl w (hw.left hk'.steps.ext), ?_, hfill, ?_⟩
  · rw [Store.messagesAt_withMessages hctx]
    exact hsame
  · rw [hsame.isEmpty_eq]

/-- The nested run of a nested-schema check, with its fault handler: on a mapping it answers
what the nested context leaves; a value that is not a mapping is caught as `none`, once the
check's flag is restored. -/
theorem nested_answer_yields (ih : RunAgrees d) (node : Nat) (reentrant : Bool) (inner : Nat)
    (v : Value) (t : Store) (ht : t.Coherent) (hfree : t.Free inner) :
    Yields (tryCatch (some <$> Run.context d inner v) fun e => do
      Run.setBusy node reentrant
      match v, e with
      | .dict _, _ => throw e
      | _, .notMapping _ _ => return none
      | _, _ => throw e) t fun a u =>
      (a = none → (∀ es, v ≠ .dict es) ∧ (Run.setBusy node reentrant).run.run t = (.ok (), u)) ∧
      ∀ valid, a = some (.now valid) → ∃ es, v = .dict es ∧ t.Keeps (some inner) u ∧
        ∃ m, (∀ w, Spans w t u → Leaves w (Store.at! t.contexts inner).schema es m) ∧
          Messages.Same (u.messagesAt inner) m ∧ Messages.Filled m ∧ valid = .bool m.isEmpty := by
  by_cases hv : ∃ es, v = .dict es
  · obtain ⟨es, rfl⟩ := hv
    refine Yields.tryCatch (Yields.map ((ih.context inner es t ht hfree).mono fun o u ho =>
      ⟨fun h => (by cases h), fun valid h => ?_⟩)) fun e _ _ => Yields.bind fun _ _ _ => Yields.throw e
    cases h
    exact ⟨es, rfl, ho valid rfl⟩
  · have hv' : ∀ es, v ≠ .dict es := fun es h => hv ⟨es, h⟩
    obtain ⟨e, hrun, hkind⟩ := Run.context_not_mapping hv' d inner t
    refine Yields.tryCatch (Yields.of_eq (r := .error e) (t := t) (by rw [Run.run_map, hrun])
      fun _ h => by cases h) fun e' u he' => ?_
    rw [Run.run_map, hrun] at he'
    cases he'
    refine Yields.bind fun _ u hset => ?_
    rcases hkind with rfl | ⟨n, tn, rfl⟩
    · split
      · exact Yields.throw _
      · rename_i h
        cases h
      · exact Yields.throw _
    · split
      · exact absurd ⟨_, rfl⟩ hv
      · exact Yields.pure ⟨fun _ => ⟨hv', hset⟩, fun _ h => by cases h⟩
      · rename_i h
        exact absurd rfl (h _ _)

theorem check_succ (ih : RunAgrees d) (node : Nat) (v : Value) (ctx : Option Nat) (path : String)
    (s : Store) (hs : s.Coherent) (hctx : ∀ c, ctx = some c → s.Free c) :
    Yields (Run.check (d + 1) node v ctx path) s fun o t => ∀ code, o = .now code →
      s.Wrote ctx t fun w ws => Answer w node v path code ws := by
  rw [Run.check.eq_2]
  refine Yields.bind (Yields.read ?_)
  -- the check is read where the run starts, a store every window of the run holds
  have hread : ∀ {c : Check}, Store.at! s.checks node = c → ∀ {t : Store} (w : Store → Prop),
      s.Ext t → Spans w s t → Reads w (fun u => Store.at! u.checks node) c :=
    fun hc _ _ hst hw => ⟨s, hw.start hst, hc⟩
  cases hc : Store.at! s.checks node with
  | member p =>
    exact Yields.pure fun code h => by
      cases h
      exact .rfl' hs fun w hw => .member (hread hc w (.refl s) hw)
  | bounded p lo hi =>
    exact Yields.bind (Yields.of_eq (Run.run_lift _ s) fun code hcode => Yields.pure fun _ h => by
      cases h
      exact .rfl' hs fun w hw => .bounded (hread hc w (.refl s) hw) hcode)
  | pass =>
    exact Yields.pure fun code h => by
      cases h
      exact .rfl' hs fun w hw => .pass (hread hc w (.refl s) hw)
  | union cs =>
    refine (attempts_agrees (fun node t ht => ih.check node v none path t ht fun _ h => by cases h)
      cs cs 0 .none s hs).mono fun o t ho code hcode => ?_
    obtain ⟨hk, ht⟩ := ho code hcode
    exact .of_keeps hk hctx fun w hw => .union (hread hc w hk.steps.ext hw) (ht w hw)
  | array e lo hi =>
    dsimp only
    split
    · rename_i hitems
      exact Yields.pure fun code h => by
        cases h
        exact .rfl' hs fun w hw => .notItems (hread hc w (.refl s) hw) hitems
    · rename_i xs hitems
      split_ifs with hlo hhi
      · exact Yields.pure fun code h => by
          cases h
          exact .rfl' hs fun w hw => .tooShort (hread hc w (.refl s) hw) hitems hlo
      · exact Yields.pure fun code h => by
          cases h
          exact .rfl' hs fun w hw =>
            .tooLong (hread hc w (.refl s) hw) hitems (by simpa using hlo) hhi
      · refine (elements_agrees (fun x i t ht hf => ih.check e x ctx _ t ht hf) xs xs 0 .none s hs
          hctx).mono fun o t ho code hcode => ?_
        have hw := ho code hcode
        exact hw.mono_spans fun w ws hw' he =>
          .array (hread hc w hw.ext hw') hitems (by simpa using hlo) (by simpa using hhi) he
  | nested sid owned busy =>
    dsimp only
    have hnode := getElem?_of_at! hc fun h => by cases h
    refine enter_bind hs hnode fun inner s₂ he => ?_
    refine Yields.bind ((nested_answer_yields ih node busy inner v s₂ he.coherent he.free).mono
      fun answer u hu => ?_)
    have hnode₂ : s₂.checks[node]? = some (.nested sid owned true) := by
      rw [he.checks]
      exact Array.getElem?_setIfInBounds_self_of_lt (Array.getElem?_eq_some_iff.mp hnode).1
    rcases answer with _ | (valid | k)
    · -- not a mapping: the check's flag is restored and nothing is written
      obtain ⟨hv, hset⟩ := hu.1 rfl
      rw [setBusy_run hnode₂] at hset
      cases hset
      have hk := Store.Keeps.nested hnode he.steps he.checks he.frame (.refl he.coherent)
      exact Yields.pure fun code h => by
        cases h
        exact .of_keeps hk hctx fun w hw => .notMapping (hread hc w hk.steps.ext hw) hv
    · obtain ⟨es, rfl, hk, m, hl, hsame, hfill, rfl⟩ := hu.2 valid rfl
      have hnode_u : u.checks[node]? = some (.nested sid owned true) :=
        hk.busy node sid owned true hnode₂
      have hkeep := Store.Keeps.nested hnode he.steps he.checks he.frame hk
      have hctx_u : ∀ c, ctx = some c → c < u.contexts.size :=
        fun c h => (hk.free (he.frame c (hctx c h)).2.1).1
      refine (release_wrote hk.coherent hnode_u busy hctx_u path inner hsame hfill
        (hl _ (Spans.between _ _)).keyed _).mono fun o t hr code hcode => ?_
      obtain ⟨rfl, hw⟩ := hr
      cases hcode
      have hut : u.Ext t := (Store.Steps.set_check hnode_u ⟨busy, rfl⟩).ext.trans hw.ext
      -- an empty nested map copies nothing
      have hcopies : (if m.isEmpty then [] else Messages.copies path m) = Messages.copies path m := by
        cases m <;> simp [Messages.copies]
      refine (Store.Wrote.keeps_then hkeep hctx hw).mono_spans fun w ws hw' hws => ?_
      subst hws
      have hleaves := hl w ((hw'.left hut).right he.steps.ext)
      rw [he.schema] at hleaves
      rw [show (Value.bool m.isEmpty).truthy = m.isEmpty from rfl, hcopies]
      exact .nested (hread hc w (hkeep.steps.ext.trans hw.ext) hw') hleaves
    · -- a pending nested run answers later
      rcases ctx with _ | c₀
      · exact Yields.pure fun _ h => by cases h
      · exact Yields.bind fun _ _ _ => Yields.bind fun _ _ _ => Yields.pure fun _ h => by cases h
  | lazy lid field spec owner built =>
    dsimp only
    cases built with
    | some n =>
      refine Yields.bind (Yields.pure ((ih.check n v ctx path s hs hctx).mono
        fun o t ho code hcode => ?_))
      exact (ho code hcode).mono_spans fun w ws hw ha => .lazy (hread hc w (ho code hcode).ext hw) ha
    | none =>
      have hnode := getElem?_of_at! hc fun h => by cases h
      refine Yields.bind ((Yields.of_adding hs).mono fun _ u₁ h₁ => Yields.bind
        ((Yields.of_adding h₁.1).mono fun n u₂ h₂ => Yields.bind (Yields.of_eq (Store.run_setCheck _ _ _)
          fun _ _ => Yields.bind (Yields.pure ?_))))
      -- building the tag's check only added to the store; the run goes on through it
      have hnode₂ : u₂.checks[node]? = some (.lazy lid field spec owner none) :=
        h₂.2.checks _ _ (h₁.2.checks _ _ hnode)
      have hk := Store.Keeps.build_lazy h₂.1 (h₁.2.trans h₂.2) hnode n
      have hat : Store.at! (u₂.checks.setIfInBounds node (.lazy lid field spec owner (some n))) node =
          .lazy lid field spec owner (some n) := by
        simp [Store.at!, (Array.getElem?_eq_some_iff.mp hnode₂).1]
      refine (ih.check n v ctx path _ hk.coherent fun c h => hk.free (hctx c h)).mono
        fun o t ho code hcode => ?_
      exact (Store.Wrote.keeps_then hk hctx (ho code hcode)).mono_spans fun w ws hw ha =>
        .lazy ⟨_, hw _ hk.steps.ext (ho code hcode).ext, hat⟩ ha
  | custom inner rule =>
    dsimp only
    refine Yields.bind ((ih.check inner v ctx path s hs hctx).mono fun o t ho => ?_)
    rcases o with code | k
    · dsimp only
      have hw := ho code rfl
      split
      · rename_i htruthy
        exact Yields.pure fun _ h => by
          cases h
          exact hw.mono_spans fun w ws hw' ha => .custom (hread hc w hw.ext hw') ha htruthy
      · -- the rule runs only when the check before it reported nothing
        rename_i hfalse
        unfold applyRule
        refine Yields.bind fun r t' hr => ?_
        obtain ⟨hc', ha'⟩ := Yields.of_adding hw.1.coherent r t' hr
        rcases r with x | k'
        · exact Yields.pure fun _ h => by
            cases h
            exact (hw.then_keeps (Store.Keeps.of_adds hc' ha') hctx).mono_spans fun w ws hw' ha =>
              .rule (hread hc w (hw.ext.trans ha'.ext) hw') ha (by simpa using hfalse)
                ⟨t, hw' t hw.ext ha'.ext, congrArg Prod.fst hr⟩
        · exact Yields.pure fun _ h => by cases h
    · exact Yields.pure fun _ h => by cases h

theorem zero : RunAgrees 0 where
  check _ _ _ _ _ _ _ := by rw [Run.check.eq_1]; exact Yields.throw _
  context _ _ _ _ _ := by rw [Run.context.eq_1]; exact Yields.throw _
  start _ _ _ _ _ := by rw [Run.start.eq_1]; exact Yields.throw _
  validator _ _ _ _ _ _ := by rw [Run.validator.eq_1]; exact Yields.throw _

theorem succ (ih : RunAgrees d) : RunAgrees (d + 1) where
  check := check_succ ih
  context := context_succ ih
  start := start_succ ih
  validator := validator_succ ih

end RunAgrees

/-- The check runner agrees with `Answers` at every depth. -/
theorem runAgrees : ∀ d, RunAgrees d
  | 0 => .zero
  | d + 1 => (runAgrees d).succ

/-- **What a synchronous validation leaves.** Run from a coherent store on a context free for its
caller, a validation of a mapping that answers `b` leaves the context with the map `Leaves` gives,
for the objects the run read, and `b` says whether that map is empty. The map does not depend on
the messages the context held before. -/
theorem validate_leaves (ctx : Nat) (es : List (Value × Value)) (s : Store) (hs : s.Coherent)
    (hfree : s.Free ctx) {b : Bool} {t : Store}
    (h : (validate ctx (.dict es)).run.run s = (.ok b, t)) :
    ∃ m, Leaves (Store.Between s t) (Store.at! s.contexts ctx).schema es m ∧
      Messages.Same (t.messagesAt ctx) m ∧ (b = true ↔ m = []) := by
  have hy : Yields (validate ctx (.dict es)) s fun b t =>
      ∃ m, Leaves (Store.Between s t) (Store.at! s.contexts ctx).schema es m ∧
        Messages.Same (t.messagesAt ctx) m ∧ (b = true ↔ m = []) := by
    unfold validate
    refine Yields.bind (Yields.read (Yields.bind (((runAgrees depth).start ctx es s hs hfree).mono
      fun rs t ht => ?_)))
    dsimp only
    split
    · -- some field answered later: the run is refused
      exact Yields.bind fun _ _ _ => Yields.bind fun _ _ _ => Yields.throw _
    rename_i hpending
    obtain ⟨hk, codes, m, rfl, hl, hsame, hfill⟩ := ht fun x hx => by
      simp only [Bool.not_eq_true', List.isEmpty_eq_false_iff_exists_mem, List.mem_filterMap,
        not_exists, not_and] at hpending
      cases hlater : Outcome.isLater x.2
      · rfl
      · exact absurd (if_pos hlater) (hpending x.1 x hx)
    refine Yields.of_eq (apply_run ctx _ t) fun b hb => ?_
    cases hb
    simp only [List.map_map, Function.comp_def, Prod.mk.eta, List.map_id']
    have hctx : ctx < t.contexts.size := lt_of_lt_of_le hfree.1 hk.steps.ext.contexts_size
    refine ⟨m, hl _ ((Spans.between _ _).left (Store.Keeps.withMessages hk.coherent hctx
      ((hk.coherent.keyed_at ctx).settle codes)).steps.ext), ?_, ?_⟩
    · rw [Store.messagesAt_withMessages hctx]
      exact hsame
    · rw [hsame.isEmpty_eq, List.isEmpty_iff]
  exact hy b t h

theorem listStore_coherent (name : String) : (listStore name).Coherent where
  owned i sid owned busy hi := by
    rcases i with _ | _ | _ | i <;> simp [listStore] at hi
    obtain ⟨rfl, rfl, rfl⟩ := hi
    exact ⟨_, rfl, rfl⟩
  unique i j sid sid' owned busy busy' hi hj := by
    rcases i with _ | _ | _ | i <;> rcases j with _ | _ | _ | j <;> simp [listStore] at hi hj ⊢
  keyed j cx hj := by
    rcases j with _ | _ | j <;> simp [listStore] at hj <;> subst hj <;> exact Messages.Keyed.nil
  named sid sch hsch := by
    rcases sid with _ | _ | sid <;> simp [listStore] at hsch <;> subst hsch <;>
      simp [recordSchema, fieldOf]

theorem listStore_free (name : String) : (listStore name).Free 1 :=
  ⟨by simp [listStore], fun i sid b hi => by rcases i with _ | _ | _ | i <;> simp [listStore] at hi⟩

end Run

theorem validate_leaves_items :
    (listStore "items").Coherent ∧ (listStore "items").Free 1 ∧
    (Run.validate 1 (.dict [(.str "items", .list [.dict [(.str "x", .str "a")]])])).run.run
        (listStore "items") =
      (.ok true, ((Run.validate 1 (.dict [(.str "items", .list [.dict [(.str "x", .str "a")]])])).run.run
        (listStore "items")).2) ∧
    ∃ m, Leaves (Store.Between (listStore "items") ((Run.validate 1
        (.dict [(.str "items", .list [.dict [(.str "x", .str "a")]])])).run.run (listStore "items")).2)
        (Store.at! (listStore "items").contexts 1).schema
        [(.str "items", .list [.dict [(.str "x", .str "a")]])] m ∧
      Messages.Same (((Run.validate 1 (.dict [(.str "items", .list [.dict [(.str "x", .str "a")]])])).run.run
        (listStore "items")).2.messagesAt 1) m ∧ (true = true ↔ m = []) := by
  have hvalid : ((Run.validate 1 (.dict [(.str "items", .list [.dict [(.str "x", .str "a")]])])).run.run
      (listStore "items")).1 = .ok true := by
    cbv
  have hrun : (Run.validate 1 (.dict [(.str "items", .list [.dict [(.str "x", .str "a")]])])).run.run
        (listStore "items") =
      (.ok true, ((Run.validate 1 (.dict [(.str "items", .list [.dict [(.str "x", .str "a")]])])).run.run
        (listStore "items")).2) :=
    Prod.ext hvalid rfl
  exact ⟨Run.listStore_coherent _, Run.listStore_free _, hrun,
    Run.validate_leaves 1 _ (listStore "items") (Run.listStore_coherent _) (Run.listStore_free _) hrun⟩

/-- A schema (`0`) with one optional text field `name`. -/
def textStore (name : String) : Store where
  schemas := #[recordSchema [fieldOf name 0 false]]
  contexts := #[{ schema := 0 }]
  checks := #[.member .string]

/-- The key `3`, a number, names no field and is marked `notInSchema` under its text `3`; the
optional text field `3` is absent, answers no code and clears that path, so the context ends
valid with no message at all. -/
theorem validate_number_key_cleared :
    ((Run.validate 0 (.dict [(.int 3, .int 1)])).run.run (textStore "3")).1 = .ok true ∧
      ((Run.validate 0 (.dict [(.int 3, .int 1)])).run.run (textStore "3")).2.messagesAt 0 = [] :=
  ⟨by cbv, by cbv⟩

end Schematic
