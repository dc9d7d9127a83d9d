import Mathlib
import Schematic.Proofs.Ends
import Schematic.Proofs.Synchrony
import Schematic.Batch

/-!
# The faults a validation can raise

Run on a mapping against a sound schema (`SchemaSound`), every function of the check runner
raises at most the recursion limit (`RunEnds`): the three faults that copying a nested message
can raise (an unknown field, a message or field that is not text) never arise, because every
copied path begins with the name of the field that made it; a nested value that is not a mapping
is caught and reported as `invalidType`; and the rules and bounds of a sound schema answer.

* `CopySafe s ctx path`: the messages a nested run copies into `ctx` under `path` name a field;
* `RunEnds d`: the four mutually recursive functions of the runner, at depth `d`, end on sound
  input and answer now on synchronous input (`NodeSync`), and the loops over candidates, elements
  and fields do so with the call they repeat;
* `Run.validate_faults`: a synchronous validation answers, or raises `pending` exactly when a
  field answered later, or runs out of depth; a batch result likewise.
-/

namespace Schematic

/-! ### Copying nested messages -/

/-- Messages copied into `ctx` under `path` are accepted: the context and its schema exist, the
path is not empty, and every path under it begins with a field of the schema. -/
def CopySafe (s : Store) (ctx : Option Nat) (path : String) : Prop :=
  ∀ c, ctx = some c → path ≠ "" ∧ ∃ cx sch, s.contexts[c]? = some cx ∧
    s.schemas[cx.schema]? = some sch ∧
    ∀ sub, (sch.fields.any fun f => f.1 == Context.head (path ++ "." ++ sub)) = true

namespace CopySafe

theorem none (s : Store) (path : String) : CopySafe s none path := by
  intro c hc
  cases hc

theorem mono {s t : Store} (hg : s.Grows t) {ctx : Option Nat} {path : String}
    (h : CopySafe s ctx path) : CopySafe t ctx path := by
  intro c hc
  obtain ⟨hpath, cx, sch, hcx, hsch, hsub⟩ := h c hc
  obtain ⟨cx', hcx', hsame⟩ := hg.contexts c cx hcx
  exact ⟨hpath, cx', sch, hcx', by rw [hsame]; exact hg.schemas _ _ hsch, hsub⟩

/-- The path of an array element is copy-safe where the array's path is. -/
theorem element {s : Store} {ctx : Option Nat} {path : String} (h : CopySafe s ctx path)
    (i : Nat) : CopySafe s ctx (Run.elementPath path i) := by
  intro c hc
  obtain ⟨hpath, cx, sch, hcx, hsch, hsub⟩ := h c hc
  have helem : Run.elementPath path i = path ++ "." ++ toString i := by
    simp [Run.elementPath, hpath]
  refine ⟨by simp [helem], cx, sch, hcx, hsch, fun sub => ?_⟩
  rw [helem, show path ++ "." ++ toString i ++ "." ++ sub =
    path ++ "." ++ (toString i ++ "." ++ sub) by simp [String.append_assoc]]
  exact hsub _

/-- A safe field name is a copy-safe path in a context of its schema. -/
theorem field {s : Store} {c : Nat} {cx : Context} {sch : Schema} {f : String × Field}
    (hcx : s.contexts[c]? = some cx) (hsch : s.schemas[cx.schema]? = some sch)
    (hf : f ∈ sch.fields) (hsafe : SafeName f.1) : CopySafe s (some c) f.1 := by
  intro c' hc'
  cases hc'
  refine ⟨hsafe.1, cx, sch, hcx, hsch, fun sub => ?_⟩
  rw [Context.head_append_dot hsafe.2]
  exact List.any_eq_true.mpr ⟨f, hf, by simp⟩

end CopySafe

/-! ### Steps that only touch run state -/

/-- Changing the messages or hooks of a context, as read from the store, only grows it. -/
theorem grows_update_context (s : Store) (i : Nat) (f : Context → Context)
    (hf : ∀ c, (f c).schema = c.schema) :
    s.Grows { s with contexts := s.contexts.setIfInBounds i (f (Store.at! s.contexts i)) } :=
  Store.grows_set_context s i _ fun c₀ hc₀ => by rw [hf, Store.at!_of_getElem? hc₀]

theorem Context.setMessages_ends (c : Nat) (m : List (String × String)) (s : Store) :
    Ends (Context.setMessages c m) s fun _ _ => True := by
  unfold Context.setMessages
  exact Ends.bind (Ends.read (Ends.change
    (grows_update_context s c (fun cx => { cx with messages := m }) fun _ => rfl) trivial))

theorem Run.setBusy_ends (node : Nat) (busy : Bool) (s : Store) :
    Ends (Run.setBusy node busy) s fun _ _ => True := by
  unfold Run.setBusy
  refine Ends.bind (Ends.read ?_)
  split
  · rename_i sid owned b hc
    refine Ends.change (Store.grows_set_check s node _ (fun c₀ hc₀ => ?_) (by simp)) trivial
    rw [← Store.at!_of_getElem? hc₀, hc]
    exact ⟨busy, rfl⟩
  · exact Ends.pure trivial

/-- A loop whose every step ends, from every store where `P` holds, ends, when growth keeps
`P`. -/
theorem Ends.forIn {γ β : Type} (P : Store → Prop) (hP : ∀ s t, P s → s.Grows t → P t)
    (f : γ → β → Run (ForInStep β)) :
    ∀ (xs : List γ), (∀ x ∈ xs, ∀ b s, P s → Ends (f x b) s fun _ _ => True) →
      ∀ (b : β) (s : Store), P s → Ends (forIn xs b f) s fun _ _ => True
  | [], _, b, s, _ => Ends.pure trivial
  | x :: xs, hf, b, s, hs => by
    rw [List.forIn_cons]
    refine Ends.bind ((hf x (by simp) b s hs).mono fun r t hg _ => ?_)
    cases r with
    | done b' => exact Ends.pure trivial
    | yield b' =>
      exact Ends.forIn P hP f xs (fun y hy => hf y (by simp [hy])) b' t (hP s t hs hg)

/-- Setting a message at a path whose first segment is a field ends. -/
theorem Context.setMessage_ends {s : Store} {c : Nat} {cx : Context} {sch : Schema}
    {path : String} (hcx : s.contexts[c]? = some cx) (hsch : s.schemas[cx.schema]? = some sch)
    (hfield : (sch.fields.any fun f => f.1 == Context.head path) = true) (code : String) :
    Ends (Context.setMessage c (.str path) (.str code)) s fun _ _ => True := by
  have hhas : Ends (Context.hasField c (Context.head path)) s fun b t => b = true ∧ t = s := by
    unfold Context.hasField
    refine Ends.bind (Ends.read (Ends.bind (Ends.read (Ends.pure ⟨?_, rfl⟩))))
    simp [Store.at!_of_getElem? hcx, Store.at!_of_getElem? hsch, hfield]
  unfold Context.setMessage
  dsimp only
  refine Ends.bind (hhas.mono fun b t _ hb => ?_)
  obtain ⟨rfl, rfl⟩ := hb
  rw [if_neg (by decide)]
  refine Ends.bind (Ends.read ?_)
  split
  · exact Context.setMessages_ends c _ _
  · exact Context.setMessages_ends c _ _


theorem Run.apply_ends (ctx : Nat) (codes : List (String × Value)) (s : Store) :
    Ends (Run.apply ctx codes) s fun _ _ => True := by
  unfold Run.apply
  exact Ends.bind (Ends.read (Ends.bind
    ((Context.setMessages_ends ctx _ s).mono fun _ _ _ _ => Ends.pure trivial)))

/-- Ending a nested-schema check ends where its messages can be copied, and answers now. -/
theorem Run.release_ends {s : Store} {ctx : Option Nat} {path : String}
    (hcopy : CopySafe s ctx path) (node : Nat) (reentrant : Bool) (nested : Nat) (valid : Value) :
    Ends (Run.release node reentrant ctx path nested valid) s fun o _ =>
      Run.Outcome.isLater o = false := by
  unfold Run.release
  refine Ends.bind ((Run.setBusy_ends node reentrant s).mono fun _ t hg _ => ?_)
  replace hcopy := hcopy.mono hg
  split
  · exact Ends.pure rfl
  · rcases ctx with _ | c
    · exact Ends.pure rfl
    · dsimp only
      split
      · refine Ends.bind (Ends.read ?_)
        refine Ends.bind ((Ends.forIn (fun u => CopySafe u (some c) path)
          (fun _ _ h hg => h.mono hg) _ _ ?_ () t hcopy).mono fun _ _ _ _ => Ends.pure rfl)
        rintro ⟨sub, code⟩ - _ u hu
        obtain ⟨-, cx, sch, hcx, hsch, hsub⟩ := hu c rfl
        exact Ends.bind ((Context.setMessage_ends hcx hsch (hsub sub) code).mono
          fun _ _ _ _ => Ends.pure trivial)
      · exact Ends.pure rfl

/-- A nested value that is not a mapping makes the nested run raise `notMapping` (or run out
of depth) at once, leaving the store as it was. -/
theorem Run.context_not_mapping {v : Value} (hv : ∀ es, v ≠ .dict es) (d ctx : Nat)
    (s : Store) : ∃ e, (Run.context d ctx v).run.run s = (.error e, s) ∧
      (e = .recursionLimit ∨ ∃ n t, e = .notMapping n t) := by
  cases d with
  | zero => exact ⟨_, by rw [Run.context]; rfl, .inl rfl⟩
  | succ d =>
    have hstart : ∃ e, (Run.start d ctx v).run.run s = (.error e, s) ∧
        (e = .recursionLimit ∨ ∃ n t, e = .notMapping n t) := by
      cases d with
      | zero => exact ⟨_, by rw [Run.start]; rfl, .inl rfl⟩
      | succ d =>
        rw [Run.start.eq_2, Run.run_bind]
        simp only [Store.run_context]
        rw [Run.run_bind]
        simp only [Store.run_schemaName]
        rw [Run.run_bind]
        exact ⟨_, rfl, .inr ⟨_, _, rfl⟩⟩
    obtain ⟨e, he, hkind⟩ := hstart
    refine ⟨e, ?_, hkind⟩
    rw [Run.context.eq_2, Run.run_bind, he]


/-- A resolution that answers leaves the lazy tag resolved to its answer. -/
theorem Run.resolveLazy_target {t u : Store} {lid : Nat} {tag : Tag}
    (hrun : (Run.resolveLazy lid).run.run t = (.ok tag, u)) (hl : ∃ l, u.lazies[lid]? = some l) :
    ∃ l, u.lazies[lid]? = some l ∧ l.target = some tag := by
  unfold Run.resolveLazy at hrun
  obtain ⟨l, t₁, h₁, hrest⟩ := Run.ok_of_bind hrun
  simp only [Store.run_lazyTag] at h₁
  obtain ⟨rfl, rfl⟩ := h₁
  split at hrest
  · -- already resolved: nothing changes
    rename_i tt htt
    simp only [Run.run_pure] at hrest
    obtain ⟨rfl, rfl⟩ := hrest
    obtain ⟨l', hl'⟩ := hl
    exact ⟨l', hl', by rw [← Store.at!_of_getElem? hl', htt]⟩
  · -- resolved now: the last step records the target
    obtain ⟨decl, t₂, -, hrest⟩ := Run.ok_of_bind hrest
    obtain ⟨tt, t₃, -, hrest⟩ := Run.ok_of_bind hrest
    obtain ⟨l', t₄, h₄, hrest⟩ := Run.ok_of_bind hrest
    simp only [Store.run_lazyTag] at h₄
    obtain ⟨rfl, rfl⟩ := h₄
    obtain ⟨_, hset, rfl⟩ := Run.ok_of_map hrest
    simp only [Store.run_setLazy] at hset
    obtain ⟨-, rfl⟩ := hset
    obtain ⟨l'', hl''⟩ := hl
    have hlt : lid < t₃.lazies.size := by
      have := (Array.getElem?_eq_some_iff.mp hl'').1
      simpa using this
    exact ⟨{ Store.at! t₃.lazies lid with target := some tt }, by simp [hlt], rfl⟩

/-! ### The runner, one depth at a time -/

/-- A context that exists and whose schema is sound. -/
def ContextSound (s : Store) (ctx : Nat) : Prop :=
  ∃ cx, s.contexts[ctx]? = some cx ∧ SchemaSound s cx.schema

/-- A validator whose check is sound, run where the messages of its field can be copied. -/
def ValidatorSound (s : Store) (val : Validator) (ctx : Option Nat) : Prop :=
  NodeSound s val.check ∧ CopySafe s ctx (val.field.getD "")

theorem ContextSound.mono {s t : Store} (hg : s.Grows t) {ctx : Nat} (h : ContextSound s ctx) :
    ContextSound t ctx := by
  obtain ⟨cx, hcx, hsch⟩ := h
  obtain ⟨cx', hcx', hsame⟩ := hg.contexts ctx cx hcx
  exact ⟨cx', hcx', hsame ▸ hsch.mono hg⟩

theorem ValidatorSound.mono {s t : Store} (hg : s.Grows t) {val : Validator} {ctx : Option Nat}
    (h : ValidatorSound s val ctx) : ValidatorSound t val ctx :=
  ⟨h.1.mono hg, h.2.mono hg⟩

/-! ### The loops of the runner

Trying union candidates, checking array elements and running a schema's fields each end when
the call they repeat does, and answer now when every call does: each is an induction on the
list, with no depth of its own. -/

/-- Trying union candidates ends when each candidate's check does, and answers now when every
candidate that is synchronous answers now. -/
theorem Run.attempts_ends {run : Nat → Run Outcome}
    (hrun : ∀ node (s : Store), NodeSound s node →
      Ends (run node) s fun o _ => NodeSync s node → Run.Outcome.isLater o = false)
    (all : List (Option Bool × Nat)) (path : String) (rest : List (Option Bool × Nat)) :
    ∀ (v : Value) (i : Nat) (err : Value) (s : Store), (∀ x ∈ rest, NodeSound s x.2) →
      Ends (Run.attempts run all v path i rest err) s fun o _ =>
        (∀ x ∈ rest, NodeSync s x.2) → Run.Outcome.isLater o = false := by
  induction rest with
  | nil =>
    intro v i err s _
    rw [Run.attempts.eq_1]
    exact Ends.pure fun _ => rfl
  | cons candidate more ih =>
    obtain ⟨nullable, node⟩ := candidate
    intro v i err s hrest
    rw [Run.attempts.eq_def]
    dsimp only
    -- after a candidate answers now, the remaining candidates run on the store it left
    have hnow : ∀ (w code : Value) (t : Store), s.Grows t →
        Ends (if (!code.truthy) = true then pure (.now .none)
          else Run.attempts run all w path (i + 1) more
            (if (!err.truthy && !code.same Run.invalidType) = true then code else err))
          t fun o _ => (∀ x ∈ (nullable, node) :: more, NodeSync s x.2) →
            Run.Outcome.isLater o = false := by
      intro w code t hg
      split
      · exact Ends.pure fun _ => rfl
      · refine (ih _ _ _ _ fun x hx => (hrest x (by simp [hx])).mono hg).mono
          fun o u _ ho hsync => ho fun x hx => (hsync x (by simp [hx])).mono hg
    split
    · exact Ends.bind (Ends.pure (hnow .none _ s (.refl s)))
    · refine Ends.bind ((hrun node s (hrest (nullable, node) (by simp))).mono fun o t hg ho => ?_)
      rcases o with code | c
      · exact hnow v code t hg
      · exact Ends.pure fun hsync => ho (hsync (nullable, node) (by simp))

/-- Checking array elements ends when the element check does, at every element's path, and
answers now when the element check does. -/
theorem Run.elements_ends {run : Value → String → Run Outcome} {element : Nat}
    {ctx : Option Nat} {path : String}
    (hrun : ∀ x i (s : Store), NodeSound s element → CopySafe s ctx path →
      Ends (run x (Run.elementPath path i)) s fun o _ =>
        NodeSync s element → Run.Outcome.isLater o = false)
    (items rest : List Value) :
    ∀ (i : Nat) (failed : Value) (s : Store), NodeSound s element → CopySafe s ctx path →
      Ends (Run.elements run element items ctx path i rest failed) s fun o _ =>
        NodeSync s element → Run.Outcome.isLater o = false := by
  induction rest with
  | nil =>
    intro i failed s _ _
    rw [Run.elements.eq_1]
    exact Ends.pure fun _ => rfl
  | cons x more ih =>
    intro i failed s hel hcopy
    rw [Run.elements.eq_2]
    refine Ends.bind ((hrun x i s hel hcopy).mono fun o t hg ho => ?_)
    rcases o with code | c
    · exact (ih _ _ t (hel.mono hg) (hcopy.mono hg)).mono
        fun o u _ ho' hsync => ho' (hsync.mono hg)
    · exact Ends.pure ho

/-- Running a schema's fields ends when each field's validator does, and every field answers
now when every synchronous validator does. -/
theorem Run.fields_ends {run : Validator → Value → Run Outcome} {ctx : Nat}
    (hrun : ∀ val v (s : Store), ValidatorSound s val (some ctx) →
      Ends (run val v) s fun o _ => ValidatorSync s val → Run.Outcome.isLater o = false)
    (es : List (Value × Value)) (fs : List (String × Field)) :
    ∀ s : Store, (∀ f ∈ fs, ValidatorSound s f.2.validator (some ctx)) →
      Ends (Run.fields run es fs) s fun rs _ => (∀ f ∈ fs, ValidatorSync s f.2.validator) →
        ∀ x ∈ rs, Run.Outcome.isLater x.2 = false := by
  induction fs with
  | nil =>
    intro s _
    rw [Run.fields.eq_1]
    exact Ends.pure fun _ x hx => by cases hx
  | cons f rest ih =>
    intro s hfs
    rw [Run.fields.eq_2]
    refine Ends.bind ((hrun _ _ s (hfs f (by simp))).mono fun o t hg ho => ?_)
    refine Ends.bind ((ih t fun f' hf' => (hfs f' (by simp [hf'])).mono hg).mono
      fun rs u _ hrs => Ends.pure fun hsync x hx => ?_)
    rcases List.mem_cons.mp hx with rfl | hx
    · exact ho (hsync f (by simp))
    · exact hrs (fun f' hf' => (hsync f' (by simp [hf'])).mono hg) x hx

/-- The four mutually recursive functions of the check runner, at depth `d`, end on sound input:
they raise at most the recursion limit and only grow the store. On synchronous input they
answer now. -/
structure RunEnds (d : Nat) : Prop where
  check : ∀ node v ctx path (s : Store), NodeSound s node → CopySafe s ctx path →
    Ends (Run.check d node v ctx path) s fun o _ =>
      NodeSync s node → Run.Outcome.isLater o = false
  context : ∀ ctx es (s : Store), ContextSound s ctx →
    Ends (Run.context d ctx (.dict es)) s fun o _ =>
      ContextSync s ctx → Run.Outcome.isLater o = false
  start : ∀ ctx es (s : Store), ContextSound s ctx →
    Ends (Run.start d ctx (.dict es)) s fun rs _ =>
      ContextSync s ctx → ∀ x ∈ rs, Run.Outcome.isLater x.2 = false
  validator : ∀ val v ctx (s : Store), ValidatorSound s val ctx →
    Ends (Run.validator d val v ctx) s fun o _ =>
      ValidatorSync s val → Run.Outcome.isLater o = false

namespace RunEnds

variable {d : Nat}

theorem validator_succ (ih : RunEnds d) (val : Validator) (v : Value) (ctx : Option Nat)
    (s : Store) (hval : ValidatorSound s val ctx) :
    Ends (Run.validator (d + 1) val v ctx) s fun o _ =>
      ValidatorSync s val → Run.Outcome.isLater o = false := by
  rw [Run.validator.eq_def]
  dsimp only
  -- whatever the field answers now, the validator only wraps it, and answers later only when
  -- it is always pending
  have hnow : ∀ (code : Value) (t : Store),
      Ends (if val.alwaysPending = true then (pure (.later (.settled code)) : Run Outcome)
        else pure (.now code)) t fun o _ => ValidatorSync s val → Run.Outcome.isLater o = false := by
    intro code t
    split
    · exact Ends.pure fun hsync => absurd hsync.1 (by simp [*])
    · exact Ends.pure fun _ => rfl
  split
  · exact Ends.bind (Ends.pure (hnow _ s))
  · split
    · refine Ends.bind ((ih.check _ _ _ _ s hval.1 hval.2).mono fun o t _ ho => ?_)
      rcases o with code | c
      · exact hnow code t
      · exact Ends.pure fun hsync => ho hsync.2
    · exact Ends.bind (Ends.pure (hnow _ s))
  · -- a pending answer of the check is passed on as it is
    refine Ends.bind ((ih.check _ _ _ _ s hval.1 hval.2).mono fun o t _ ho => ?_)
    rcases o with code | c
    · exact hnow code t
    · exact Ends.pure fun hsync => ho hsync.2

theorem context_succ (ih : RunEnds d) (ctx : Nat) (es : List (Value × Value)) (s : Store)
    (hctx : ContextSound s ctx) : Ends (Run.context (d + 1) ctx (.dict es)) s fun o _ =>
      ContextSync s ctx → Run.Outcome.isLater o = false := by
  rw [Run.context.eq_2]
  refine Ends.bind ((ih.start ctx es s hctx).mono fun results t _ hnow => ?_)
  split
  · -- a pending field contradicts a synchronous schema
    rename_i hany
    refine Ends.pure fun hsync => ?_
    obtain ⟨⟨name, o⟩, hx, hlater⟩ := List.any_eq_true.mp hany
    have hnow' : Run.Outcome.isLater o = false := hnow hsync _ hx
    simp [hnow'] at hlater
  · exact Ends.bind ((Run.apply_ends ctx _ t).mono fun _ _ _ _ => Ends.pure fun _ => rfl)

/-- Starting a run marks unknown keys, which only reads the store, then runs every field, each
with its field's name as the path its nested messages are copied under. -/
theorem start_succ (ih : RunEnds d) (ctx : Nat) (es : List (Value × Value)) (s : Store)
    (hctx : ContextSound s ctx) : Ends (Run.start (d + 1) ctx (.dict es)) s fun rs _ =>
      ContextSync s ctx → ∀ x ∈ rs, Run.Outcome.isLater x.2 = false := by
  obtain ⟨cx, hcx, hsch⟩ := hctx
  obtain ⟨sch, hschema, hfs⟩ := schemaSound_iff.mp hsch
  rw [Run.start.eq_2]
  refine Ends.bind (Ends.read ?_)
  rw [Store.at!_of_getElem? hcx]
  dsimp only
  refine Ends.bind (Ends.pure (Ends.bind (Ends.read ?_)))
  rw [Store.at!_of_getElem? hschema]
  refine Ends.bind ((Ends.forIn (fun _ => True) (fun _ _ _ _ => trivial) _ es ?_ _ s
    trivial).mono fun m t hg _ => ?_)
  · rintro ⟨k, v⟩ - m u -
    dsimp only
    split
    · exact Ends.bind (Ends.of_run (Store.run_plain k u) (.refl u) (Ends.pure trivial))
    · exact Ends.pure trivial
  · refine Ends.bind (Ends.change (Store.grows_set_context t ctx _ fun c₀ hc₀ => ?_) ?_)
    · obtain ⟨cx', hcx', hsame⟩ := hg.contexts ctx cx hcx
      rw [hcx'] at hc₀
      cases hc₀
      exact hsame.symm
    · -- the fields run in the context as just reset, whose schema has not changed
      have hg' := hg.trans (Store.grows_set_context t ctx { schema := cx.schema, messages := m }
        fun c₀ hc₀ => by
          obtain ⟨cx', hcx', hsame⟩ := hg.contexts ctx cx hcx
          rw [hcx'] at hc₀
          cases hc₀
          exact hsame.symm)
      refine (Run.fields_ends (fun val x t hval => ih.validator val x (some ctx) t hval) es
        sch.fields _ fun f hf => ?_).mono fun rs u _ hrs hsync =>
          hrs fun f hf => (hsync.fields hcx hschema f hf).mono hg'
      obtain ⟨hsafe, hname, hcheck⟩ := hfs f hf
      obtain ⟨cx', hcx', hsame⟩ := hg'.contexts ctx cx hcx
      refine ⟨hcheck.mono hg', ?_⟩
      rw [hname]
      exact CopySafe.field hcx' (by rw [hsame]; exact hg'.schemas _ _ hschema) hf hsafe


/-- The nested run of a nested-schema check, with its fault handler: a value that is not a
mapping is caught as `none`, and only the recursion limit is raised again. -/
theorem nested_answer_ends (ih : RunEnds d) (node : Nat) (busy : Bool) (inner : Nat) (v : Value)
    (t : Store) (hinner : ContextSound t inner) :
    Ends (tryCatch (some <$> Run.context d inner v) fun e => do
      Run.setBusy node busy
      match v, e with
      | .dict _, _ => throw e
      | _, .notMapping _ _ => return none
      | _, _ => throw e) t fun a _ =>
        ContextSync t inner → ∀ o, a = some o → Run.Outcome.isLater o = false := by
  by_cases hv : ∃ es, v = .dict es
  · obtain ⟨es, rfl⟩ := hv
    obtain ⟨hgrow, hr⟩ := ih.context inner es t hinner
    rcases hrun : (Run.context d inner (.dict es)).run.run t with ⟨r, u⟩
    rw [hrun] at hgrow hr
    refine Ends.tryCatch (r := r.map some) (t := u) ?_ hgrow (fun a ha hsync o hao => ?_)
      fun e he => ?_
    · rw [Run.run_map, hrun]
      cases r <;> rfl
    · -- the nested run answered: on a synchronous schema, now
      rcases hr with rfl | ⟨a', rfl, hnow⟩
      · cases ha
      · cases ha
        cases hao
        exact hnow hsync
    · -- the nested run raised: by `RunEnds`, only the recursion limit
      rcases hr with hr | ⟨a, ha, -⟩
      · subst hr
        cases he
        exact Ends.bind ((Run.setBusy_ends node busy u).mono fun _ _ _ _ => Ends.limit)
      · subst ha
        cases he
  · have hv' : ∀ es, v ≠ .dict es := fun es h => hv ⟨es, h⟩
    obtain ⟨e, hrun, hkind⟩ := Run.context_not_mapping hv' d inner t
    refine Ends.tryCatch (r := .error e) (t := t) (by rw [Run.run_map, hrun]) (.refl t)
      (fun _ ha => by cases ha) fun e' he' => ?_
    cases he'
    refine Ends.bind ((Run.setBusy_ends node busy t).mono fun _ _ _ _ => ?_)
    rcases hkind with rfl | ⟨n, tn, rfl⟩
    · split
      · exact Ends.limit
      · rename_i h
        cases h
      · exact Ends.limit
    · split
      · exact absurd ⟨_, rfl⟩ hv
      · exact Ends.pure fun _ o ho => by cases ho
      · rename_i h
        exact absurd rfl (h _ _)

theorem check_succ (ih : RunEnds d) (node : Nat) (v : Value) (ctx : Option Nat) (path : String)
    (s : Store) (hnode : NodeSound s node) (hcopy : CopySafe s ctx path) :
    Ends (Run.check (d + 1) node v ctx path) s fun o _ =>
      NodeSync s node → Run.Outcome.isLater o = false := by
  obtain ⟨c, hc, hcs⟩ := hnode.exists
  have hsync : NodeSync s node → CheckSync s c := (nodeSync_iff hc).mp
  rw [Run.check.eq_2]
  refine Ends.bind (Ends.read ?_)
  rw [Store.at!_of_getElem? hc]
  cases c with
  | member p => exact Ends.pure fun _ => rfl
  | bounded p lo hi =>
    obtain ⟨code, hcode⟩ := hcs v
    exact Ends.bind (Ends.lift hcode (Ends.pure fun _ => rfl))
  | pass => exact Ends.pure fun _ => rfl
  | union cs =>
    exact (Run.attempts_ends (fun node t hn => ih.check node v none path t hn (CopySafe.none t path))
      _ _ _ _ _ _ s hcs).mono fun _ _ _ ho hn => ho (hsync hn)
  | array e lo hi =>
    dsimp only
    split
    · exact Ends.pure fun _ => rfl
    · split_ifs
      · exact Ends.pure fun _ => rfl
      · exact Ends.pure fun _ => rfl
      · exact (Run.elements_ends (fun x i t hel hc => ih.check _ x ctx _ t hel (hc.element i))
          _ _ _ _ s hcs hcopy).mono fun _ _ _ ho hn => ho (hsync hn)
  | nested sid owned busy =>
    obtain ⟨⟨cx, hcx, hsid⟩, hsch⟩ := hcs
    dsimp only
    -- the run takes the owned context, or a fresh one while the owned one is busy: either is a
    -- context of the nested schema, and synchronous when the check is
    refine Ends.ite_bind
      (fun inner t => ContextSound t inner ∧ (NodeSync s node → ContextSync t inner))
      (fun _ => Ends.addContext ⟨?_, fun hn => ?_⟩)
      (fun _ => Ends.pure ⟨⟨cx, hcx, hsid ▸ hsch⟩, fun hn => ⟨cx, hcx, hsid ▸ hsync hn⟩⟩)
      fun inner t hg hinner => ?_
    · exact ⟨{ schema := sid }, by simp, hsch.mono (Store.grows_push_context s _)⟩
    · exact ⟨{ schema := sid }, by simp, (hsync hn).mono (Store.grows_push_context s _)⟩
    obtain ⟨c', hc', href⟩ := hg.checks node _ hc
    obtain ⟨b', rfl⟩ := href
    have hset := Store.grows_set_check t node (.nested sid owned true)
      (fun c₀ hc₀ => by rw [hc'] at hc₀; cases hc₀; exact ⟨true, rfl⟩) (by simp)
    refine Ends.bind (Ends.change hset ?_)
    refine Ends.bind ((nested_answer_ends ih node busy inner v _ (hinner.1.mono hset)).mono
      fun answer u hg' hanswer => ?_)
    have hcopy' := hcopy.mono (hg.trans (hset.trans hg'))
    rcases answer with _ | (valid | k)
    · exact Ends.pure fun _ => rfl
    · exact (Run.release_ends hcopy' node busy inner valid).mono fun _ _ _ ho _ => ho
    · -- the nested run is pending, which a synchronous nested schema never is
      have hlater : ¬ NodeSync s node := fun hn => by
        have hnow := hanswer ((hinner.2 hn).mono hset) _ rfl
        cases hnow
      rcases ctx with _ | c₀
      · exact Ends.pure fun hn => absurd hn hlater
      · exact Ends.bind (Ends.read (Ends.bind (Ends.change
          (grows_update_context u c₀ (fun cx => { cx with hooks := cx.hooks ++ [⟨node, busy, inner⟩] })
            fun _ => rfl) (Ends.pure fun hn => absurd hn hlater))))
  | lazy lid field spec owner built =>
    obtain ⟨hlazy, hbuilt⟩ := hcs
    dsimp only
    cases built with
    | some b =>
      exact Ends.bind (Ends.pure ((ih.check b v ctx path s (hbuilt b rfl) hcopy).mono
        fun _ _ _ ho hn => ho ((hsync hn).2 b rfl)))
    | none =>
      -- the first run resolves the tag, builds its target's check and records it
      obtain ⟨⟨l, hl⟩, hres⟩ := tagSound_lazy.mp hlazy
      obtain ⟨tag, u, hrun, hsu, hkeep, htag⟩ := hres s (.refl s)
      refine Ends.bind (Ends.of_run hrun hsu ?_)
      refine Ends.bind ((Build.factory_ends Build.depth tag field spec owner none u htag).mono
        fun n w hg hbw => ?_)
      obtain ⟨hb, hk⟩ := hbw
      -- the lazy check is still unbuilt: resolving and building only added checks
      have hnode : w.checks[node]? = some (.lazy lid field spec owner none) :=
        hk _ _ (hkeep _ _ hc)
      obtain ⟨l₁, hl₁, -⟩ := hsu.lazies lid l hl
      obtain ⟨l', hl', htarget⟩ := Run.resolveLazy_target hrun ⟨l₁, hl₁⟩
      obtain ⟨l'', hl'', href⟩ := hg.lazies lid l' hl'
      have hlt : node < u.checks.size :=
        lt_of_lt_of_le (Array.getElem?_eq_some_iff.mp hc).1 hsu.checks_size
      have hset := Store.grows_set_built w hnode hl'' (href.target _ htarget) hlt hb
      have hsound : NodeSound _ n := (hb.mono hset).sound (htag.mono (hg.trans hset)) (by simp)
      -- the target of a synchronous lazy tag is synchronous, and so is the check built for it
      have hnsync : NodeSync s node → NodeSync _ n := fun hn =>
        (hb.mono hset).sync ((tagSync_lazy.mp (hsync hn).1 s (.refl s) tag u hrun).mono
          (hg.trans hset)) (by simp)
      exact Ends.bind (Ends.change hset (Ends.bind (Ends.pure ((ih.check n v ctx path _ hsound
        (hcopy.mono (hsu.trans (hg.trans hset)))).mono fun _ _ _ ho hn => ho (hnsync hn)))))
  | custom inner r =>
    dsimp only
    refine Ends.bind ((ih.check inner v ctx path s hcs.1 hcopy).mono fun o t _ ho => ?_)
    rcases o with code | k
    · dsimp only
      split
      · exact Ends.pure fun _ => rfl
      · unfold Run.applyRule
        obtain ⟨o, hcall⟩ := hcs.2 v t
        refine Ends.bind (Ends.of_growing hcall ?_)
        rcases o with x | k'
        · exact Ends.pure fun _ => rfl
        · -- a rule that answers at once never answers later
          refine Ends.pure fun hn => ?_
          have hnow := Rule.callValue_now (hsync hn).2 v hcall
          cases hnow
    · exact Ends.pure fun hn => ho (hsync hn).1

theorem zero : RunEnds 0 where
  check _ _ _ _ _ _ _ := by rw [Run.check.eq_1]; exact Ends.limit
  context _ _ _ _ := by rw [Run.context.eq_1]; exact Ends.limit
  start _ _ _ _ := by rw [Run.start.eq_1]; exact Ends.limit
  validator _ _ _ _ _ := by rw [Run.validator.eq_1]; exact Ends.limit

theorem succ (ih : RunEnds d) : RunEnds (d + 1) where
  check := check_succ ih
  context := context_succ ih
  start := start_succ ih
  validator := validator_succ ih

end RunEnds

/-- **On sound input, the check runner raises at most the recursion limit**, at every depth. -/
theorem runEnds : ∀ d, RunEnds d
  | 0 => .zero
  | d + 1 => (runEnds d).succ


/-! ### Validating a mapping -/

/-- Freeing a busy check never fails. -/
theorem Run.setBusy_ok (node : Nat) (busy : Bool) (s : Store) :
    ((Run.setBusy node busy).run.run s).1 = .ok () := by
  unfold Run.setBusy
  rw [Run.run_bind]
  simp only [Store.run_check]
  split <;> rfl

/-- Dropping a pending run never fails. -/
theorem Run.abandon_ok : ∀ (d ctx : Nat) (s : Store), ((Run.abandon d ctx).run.run s).1 = .ok ()
  | 0, _, _ => rfl
  | d + 1, ctx, s => by
    -- every hook frees its check, then drops the nested run it made, one depth down
    have hloop : ∀ (hooks : List Hook) (t : Store),
        ((forIn hooks PUnit.unit fun h _ => do
          Run.setBusy h.check h.reentrant
          Run.abandon d h.nested
          pure (ForInStep.yield PUnit.unit) : Run PUnit).run.run t).1 = .ok () := by
      intro hooks
      induction hooks with
      | nil => intro t; rfl
      | cons h hooks ih =>
        intro t
        rw [List.forIn_cons, Run.run_bind, Run.run_bind_of_ok (Run.setBusy_ok _ _ t),
          Run.run_bind_of_ok (Run.abandon_ok d h.nested _)]
        exact ih _
    rw [Run.abandon, Run.run_bind_of_ok rfl, Run.run_bind_of_ok rfl, Run.run_bind_of_ok (hloop _ _)]
    rfl

/-! ### Batch results -/

theorem Store.grows_push_batch (s : Store) (b : Batch) :
    s.Grows { s with batches := s.batches.push b } where
  schemas _ _ h := h
  contexts _ x h := ⟨x, h, rfl⟩
  unions _ _ h := h
  arrays _ _ h := h
  lazies _ l h := ⟨l, h, .refl l⟩
  checks _ x h := ⟨x, h, .refl x⟩
  built _ _ _ _ _ _ h h' := by simp [h] at h'
  registries := rfl
  schemaNames := rfl
  registryNames := rfl

/-- A list traversal ends when each step ends from every store grown from the first. -/
theorem Ends.mapM {γ : Type} {f : γ → Run α} :
    ∀ (xs : List γ) (s : Store), (∀ x ∈ xs, ∀ t, s.Grows t → Ends (f x) t fun _ _ => True) →
      Ends (xs.mapM f) s fun _ _ => True
  | [], s, _ => Ends.pure trivial
  | x :: xs, s, hf => by
    rw [List.mapM_cons]
    refine Ends.bind ((hf x (by simp) s (.refl s)).mono fun a t hg _ => ?_)
    refine Ends.bind ((Ends.mapM xs t fun y hy u hu => hf y (by simp [hy]) u (hg.trans hu)).mono
      fun _ _ _ _ => Ends.pure trivial)

theorem Batch.create_ends (sid : Nat) (es : List (Value × Value)) (s : Store)
    (hsch : SchemaSound s sid) : Ends (Batch.create sid (.dict es)) s fun _ _ => True := by
  obtain ⟨sch, hsch, hfields⟩ := schemaSound_iff.mp hsch
  unfold Batch.create
  dsimp only
  refine Ends.bind (Ends.pure (Ends.bind (Ends.read ?_)))
  rw [Store.at!_of_getElem? hsch]
  have hadd : ∀ (b : Batch) (t : Store), Ends (Store.addBatch b) t fun _ _ => True :=
    fun b t => Ends.of_run rfl (Store.grows_push_batch t b) trivial
  split
  · -- a key that is no field rejects the record before any validator runs
    refine Ends.bind ((Ends.mapM _ s fun x _ t _ => ?_).mono fun _ _ _ _ => hadd _ _)
    exact Ends.bind (Ends.of_run (Store.run_plain _ _) (.refl t) (Ends.pure trivial))
  · refine Ends.bind ((Ends.mapM _ s fun f hf t hg => ?_).mono fun _ _ _ _ => hadd _ _)
    obtain ⟨-, -, hnode⟩ := hfields f hf
    exact Ends.bind (((runEnds Run.depth).validator f.2.validator _ none t
      ⟨hnode.mono hg, CopySafe.none _ _⟩).mono fun _ _ _ _ => Ends.pure trivial)


/-- **A synchronous validation of a mapping against a sound schema** answers a validity, or
raises `pending` exactly when some field answered with an awaitable, or runs out of depth while
starting; it raises nothing else. -/
theorem Run.validate_answers (s : Store) (ctx : Nat) (es : List (Value × Value))
    (hctx : ContextSound s ctx) :
    ((Run.start Run.depth ctx (.dict es)).run.run s).1 = .error .recursionLimit ∧
      ((Run.validate ctx (.dict es)).run.run s).1 = .error .recursionLimit ∨
    ∃ results t, (Run.start Run.depth ctx (.dict es)).run.run s = (.ok results, t) ∧
      ((results.any (fun x => Run.Outcome.isLater x.2) = false ∧
          ∃ b, ((Run.validate ctx (.dict es)).run.run s).1 = .ok b) ∨
        (results.any (fun x => Run.Outcome.isLater x.2) = true ∧
          ∃ names, ((Run.validate ctx (.dict es)).run.run s).1 = .error (.pending names))) := by
  obtain ⟨-, hr⟩ := (runEnds Run.depth).start ctx es s hctx
  rcases hstart : (Run.start Run.depth ctx (.dict es)).run.run s with ⟨r, t⟩
  rw [hstart] at hr
  unfold Run.validate
  rw [Run.run_bind_of_eq (Store.run_context ctx s), Run.run_bind, hstart]
  rcases hr with hr | ⟨results, rfl, -⟩
  · subst hr
    exact .inl ⟨rfl, rfl⟩
  · refine .inr ⟨results, t, rfl, ?_⟩
    dsimp only
    split
    · rename_i hpend
      refine .inr ⟨?_, ?_⟩
      · simpa [List.filterMap_eq_nil_iff] using hpend
      · rw [Run.run_bind_of_ok (Run.abandon_ok _ _ _), Run.run_bind_of_ok rfl]
        exact ⟨_, rfl⟩
    · rename_i hpend
      refine .inl ⟨?_, _, rfl⟩
      simpa [List.filterMap_eq_nil_iff] using hpend

/-- **Validation against a sound schema raises no fault of its own.** A synchronous run of a
context answers a validity, or raises `pending` exactly when some field validator answered with
an awaitable, or runs out of depth; a batch result of the same mapping is created, or runs out
of depth. -/
theorem Run.validate_faults (s : Store) (sid ctx : Nat) (es : List (Value × Value))
    (hsch : SchemaSound s sid) (hctx : ∃ cx, s.contexts[ctx]? = some cx ∧ cx.schema = sid) :
    (((Run.start Run.depth ctx (.dict es)).run.run s).1 = .error .recursionLimit ∧
        ((Run.validate ctx (.dict es)).run.run s).1 = .error .recursionLimit ∨
      ∃ results t, (Run.start Run.depth ctx (.dict es)).run.run s = (.ok results, t) ∧
        ((results.any (fun x => Run.Outcome.isLater x.2) = false ∧
            ∃ b, ((Run.validate ctx (.dict es)).run.run s).1 = .ok b) ∨
          (results.any (fun x => Run.Outcome.isLater x.2) = true ∧
            ∃ names, ((Run.validate ctx (.dict es)).run.run s).1 = .error (.pending names)))) ∧
    (((Batch.create sid (.dict es)).run.run s).1 = .error .recursionLimit ∨
      ∃ id, ((Batch.create sid (.dict es)).run.run s).1 = .ok id) := by
  obtain ⟨cx, hcx, rfl⟩ := hctx
  refine ⟨Run.validate_answers s ctx es ⟨cx, hcx, hsch⟩, ?_⟩
  obtain ⟨-, hr | ⟨id, hid, -⟩⟩ := Batch.create_ends cx.schema es s hsch
  · exact .inl hr
  · exact .inr ⟨id, hid⟩

/-- A schema of the given fields, with no options. -/
def recordSchema (fields : List (String × Field)) : Schema :=
  { options := {}, registry := none, declarations := [], named := [], fields }

/-- A field whose validator runs `check`, required or not. -/
def fieldOf (name : String) (check : Nat) (required : Bool) : String × Field :=
  (name, ⟨default, ⟨some name, check, required, none, false, false⟩⟩)

/-- A record schema (`1`) with one field `name`, an array of records (`0`) with one required
text `x`. -/
def listStore (name : String) : Store where
  schemas := #[recordSchema [fieldOf "x" 0 true], recordSchema [fieldOf name 2 false]]
  contexts := #[{ schema := 0 }, { schema := 1 }]
  checks := #[.member .string, .nested 0 0 false, .array 1 none none]

theorem listStore_sound {name : String} (hname : SafeName name) :
    SchemaSound (listStore name) 1 := by
  have hinner : SchemaSound (listStore name) 0 := by
    refine schemaSound_iff.mpr ⟨recordSchema [fieldOf "x" 0 true], rfl, ?_⟩
    simp only [recordSchema, List.mem_singleton, forall_eq]
    exact ⟨by decide, rfl, (nodeSound_iff (c := .member .string) rfl).mpr trivial⟩
  have hnested : NodeSound (listStore name) 1 :=
    (nodeSound_iff (c := .nested 0 0 false) rfl).mpr ⟨⟨_, rfl, rfl⟩, hinner⟩
  refine schemaSound_iff.mpr ⟨recordSchema [fieldOf name 2 false], rfl, ?_⟩
  simp only [recordSchema, List.mem_singleton, forall_eq]
  exact ⟨hname, rfl, (nodeSound_iff (c := .array 1 none none) rfl).mpr hnested⟩

theorem validate_faults_list :
    SchemaSound (listStore "items") 1 ∧ (∃ cx, (listStore "items").contexts[1]? = some cx ∧ cx.schema = 1) ∧
    ((((Run.start Run.depth 1 (.dict [(.str "items", .list [.dict []])])).run.run (listStore "items")).1 =
          .error .recursionLimit ∧
        ((Run.validate 1 (.dict [(.str "items", .list [.dict []])])).run.run (listStore "items")).1 =
          .error .recursionLimit ∨
      ∃ results t, (Run.start Run.depth 1 (.dict [(.str "items", .list [.dict []])])).run.run
          (listStore "items") = (.ok results, t) ∧
        ((results.any (fun x => Run.Outcome.isLater x.2) = false ∧
            ∃ b, ((Run.validate 1 (.dict [(.str "items", .list [.dict []])])).run.run
              (listStore "items")).1 = .ok b) ∨
          (results.any (fun x => Run.Outcome.isLater x.2) = true ∧
            ∃ names, ((Run.validate 1 (.dict [(.str "items", .list [.dict []])])).run.run
              (listStore "items")).1 = .error (.pending names)))) ∧
    (((Batch.create 1 (.dict [(.str "items", .list [.dict []])])).run.run (listStore "items")).1 =
        .error .recursionLimit ∨
      ∃ id, ((Batch.create 1 (.dict [(.str "items", .list [.dict []])])).run.run (listStore "items")).1 =
        .ok id)) :=
  ⟨listStore_sound (by decide), ⟨_, rfl, rfl⟩,
    Run.validate_faults (listStore "items") 1 1 _ (listStore_sound (by decide)) ⟨_, rfl, rfl⟩⟩

/-- Under a field named by the empty text, element `0` of an array reports its nested messages
at `0.x`, whose first segment is no field, and the validation raises `unknownField`. -/
theorem validate_unknownField_of_empty_name :
    ((Run.validate 1 (.dict [(.str "", .list [.dict []])])).run.run (listStore "")).1 =
      .error (.unknownField "0.x") := by
  cbv

end Schematic
