import Mathlib
import Schematic.Proofs.Settling
import Schematic.Proofs.Extending
import Schematic.Session

/-!
# Every store a session reaches is coherent

What validating a context (`Run.validate_leaves`), a batch (`Run.batch_agrees`) and a frame
(`Frame.validate_reports`) answer was shown from a coherent store (`Store.Coherent`): every
nested-schema check owns a context of its schema, no two checks own one, no message map holds a
path twice, and every field of a schema is named after its validator. This module shows that the
assumption holds of every store a session reaches: the store a session starts with is coherent,
and every command keeps a coherent store coherent, whether it answers, raises or is refused, and
however far it got before it failed.

`Tidy m` says that `m` keeps every coherent store coherent, whatever it answers or raises. Like
`Adding`, it is a class with an instance for each way computations are put together, so that
instance search proves it of a whole `do` block, and every computation that only adds objects is
tidy. What is left are the writes that change an object in place, each tidy for a reason of its
own:

* a context's messages and hooks, replaced by a map with no path twice (`Tidy.update`);
* the busy flag of a nested-schema check (`Run.setBusy_tidy`), and the check a lazy check
  records once it built it;
* a schema's fields, replaced by fields named after their validators (`Schema.extend_tidy`), and
  its named contexts (`Schema.context_tidy`).

From these, by induction on the depth, the check runner is tidy (`Run.tidy`), and so are the
event loop (`Loop.tidy`) and every entry point built on them. Then:

* `Session.exec_coherent`: one command keeps its session's store coherent;
* **`Session.coherent_runFrom`**: every store a session reaches from a coherent one is coherent;
* **`Session.coherent_run`**: every store a session reaches from its start is coherent.
-/

namespace Schematic

/-- What a read answers is the part of the store it reads, and the store is left alone. -/
theorem Store.read_ok {α : Type} {f : Store → α} {s t : Store} {a : α}
    (h : (Store.read f).run.run s = (.ok a, t)) : f s = a ∧ s = t := by
  cases h
  exact ⟨rfl, rfl⟩

/-- `m` keeps every coherent store coherent, whether it answers or raises. -/
class Tidy {α : Type} (m : Run α) : Prop where
  keeps : ∀ s : Store, s.Coherent → (m.run.run s).2.Coherent

namespace Tidy

variable {α β : Type}

theorem stays {m : Run α} (hm : Tidy m) (s : Store) : Stays Store.Coherent m s := hm.keeps s

theorem of_stays {m : Run α} (h : ∀ s, Stays Store.Coherent m s) : Tidy m := ⟨h⟩

/-- A computation that only adds objects is tidy. -/
instance (priority := low) of_adding {m : Run α} [hm : Adding m] : Tidy m :=
  ⟨fun s hs => (hm.adds s hs).1⟩

/-- A computation that leaves the schemas, contexts and checks as they were. -/
theorem of_same {m : Run α}
    (h : ∀ s : Store, (m.run.run s).2.schemas = s.schemas ∧ (m.run.run s).2.contexts = s.contexts ∧
      (m.run.run s).2.checks = s.checks) : Tidy m :=
  ⟨fun s hs => by
    obtain ⟨h₁, h₂, h₃⟩ := h s
    exact hs.of_same h₁ h₂ h₃⟩

instance bind {x : Run α} {f : α → Run β} [hx : Tidy x] [hf : ∀ a, Tidy (f a)] :
    Tidy (x >>= f) :=
  of_stays fun s => Stays.bind (hx.stays s) fun a _ _ => (hf a).stays _

instance of_ite {c : Prop} [Decidable c] {x y : Run α} [Tidy x] [Tidy y] :
    Tidy (if c then x else y) := by
  split <;> infer_instance

instance map {x : Run α} {f : α → β} [hx : Tidy x] : Tidy (f <$> x) :=
  ⟨fun s hs => by
    rw [Run.run_map]
    have := hx.keeps s hs
    rcases h : x.run.run s with ⟨_ | _, t⟩ <;> rw [h] at this <;> exact this⟩

instance tryCatch {x : Run α} {h : Fault → Run α} [hx : Tidy x] [hh : ∀ e, Tidy (h e)] :
    Tidy (tryCatch x h) :=
  of_stays fun s => Stays.tryCatch (hx.stays s) fun e _ _ => (hh e).stays _

instance mapM {f : α → Run β} [∀ a, Tidy (f a)] : ∀ xs : List α, Tidy (xs.mapM f)
  | [] => of_same fun _ => ⟨rfl, rfl, rfl⟩
  | x :: xs => by
    rw [List.mapM_cons]
    have := mapM (f := f) xs
    infer_instance

instance forIn {f : α → β → Run (ForInStep β)} [∀ a b, Tidy (f a b)] :
    ∀ (xs : List α) (b : β), Tidy (forIn xs b f)
  | [], b => of_same fun _ => ⟨rfl, rfl, rfl⟩
  | x :: xs, b => by
    rw [List.forIn_cons]
    have := forIn (f := f) xs
    refine @bind _ _ _ _ inferInstance fun r => ?_
    cases r <;> infer_instance

instance foldlM {f : β → α → Run β} [∀ b a, Tidy (f b a)] :
    ∀ (xs : List α) (b : β), Tidy (xs.foldlM f b)
  | [], b => of_same fun _ => ⟨rfl, rfl, rfl⟩
  | x :: xs, b => by
    rw [List.foldlM_cons]
    have := foldlM (f := f) xs
    infer_instance

instance anyM {f : α → Run Bool} [∀ a, Tidy (f a)] : ∀ xs : List α, Tidy (xs.anyM f)
  | [] => of_same fun _ => ⟨rfl, rfl, rfl⟩
  | x :: xs => by
    rw [List.anyM]
    have := anyM (f := f) xs
    refine @bind _ _ _ _ inferInstance fun b => ?_
    cases b <;> infer_instance

instance allM {f : α → Run Bool} [∀ a, Tidy (f a)] : ∀ xs : List α, Tidy (xs.allM f)
  | [] => of_same fun _ => ⟨rfl, rfl, rfl⟩
  | x :: xs => by
    rw [List.allM]
    have := allM (f := f) xs
    refine @bind _ _ _ _ inferInstance fun b => ?_
    cases b <;> infer_instance

/-! ### Reading, and writing what coherence does not look at -/

instance of_get : Tidy (get : Run Store) := of_same fun _ => ⟨rfl, rfl, rfl⟩

instance of_registry (id : Nat) : Tidy (Store.registry id) := of_same fun _ => ⟨rfl, rfl, rfl⟩

instance of_batch (id : Nat) : Tidy (Store.batch id) := of_same fun _ => ⟨rfl, rfl, rfl⟩

instance of_task (id : Nat) : Tidy (Store.task id) := of_same fun _ => ⟨rfl, rfl, rfl⟩

instance of_gather (id : Nat) : Tidy (Store.gather id) := of_same fun _ => ⟨rfl, rfl, rfl⟩

instance of_schemaName (id : Nat) : Tidy (Store.schemaName id) :=
  of_same fun _ => ⟨rfl, rfl, rfl⟩

instance of_setRegistry (id : Nat) (x : Registry) : Tidy (Store.setRegistry id x) :=
  of_same fun _ => ⟨rfl, rfl, rfl⟩

instance of_setBatch (id : Nat) (x : Batch) : Tidy (Store.setBatch id x) :=
  of_same fun _ => ⟨rfl, rfl, rfl⟩

instance of_setTask (id : Nat) (x : Task) : Tidy (Store.setTask id x) :=
  of_same fun _ => ⟨rfl, rfl, rfl⟩

instance of_setGather (id : Nat) (x : Gather) : Tidy (Store.setGather id x) :=
  of_same fun _ => ⟨rfl, rfl, rfl⟩

instance of_addRegistry (x : Registry) : Tidy (Store.addRegistry x) :=
  of_same fun _ => ⟨rfl, rfl, rfl⟩

instance of_addBatch (x : Batch) : Tidy (Store.addBatch x) := of_same fun _ => ⟨rfl, rfl, rfl⟩

instance of_addTask (x : Task) : Tidy (Store.addTask x) := of_same fun _ => ⟨rfl, rfl, rfl⟩

instance of_addGather (x : Gather) : Tidy (Store.addGather x) := of_same fun _ => ⟨rfl, rfl, rfl⟩

instance of_enqueue (h : Handle) : Tidy (Store.enqueue h) := of_same fun _ => ⟨rfl, rfl, rfl⟩

/-- A change of the store that keeps its schemas, contexts and checks. -/
theorem of_modify {f : Store → Store}
    (hf : ∀ s, (f s).schemas = s.schemas ∧ (f s).contexts = s.contexts ∧ (f s).checks = s.checks) :
    Tidy (modify f : Run Unit) :=
  of_same hf

end Tidy

/-! ### Writes in place -/

namespace Store.Coherent

variable {s : Store}

/-- Changing a context by `f`, which keeps its schema and keeps its map free of repeated paths. -/
theorem update_context (h : s.Coherent) (j : Nat) {f : Context → Context}
    (hschema : ∀ c, (f c).schema = c.schema)
    (hkeyed : ∀ c, Messages.Keyed c.messages → Messages.Keyed (f c).messages) :
    { s with contexts := s.contexts.setIfInBounds j (f (at! s.contexts j)) }.Coherent :=
  h.set_context (fun c₀ hc₀ => by rw [at!_of_getElem? hc₀]; exact hschema c₀)
    (hkeyed _ (h.keyed_at j))

/-- Changing the check at `i` to a check that is not nested, or that is the nested check there
with another busy flag. -/
theorem set_check_at (h : s.Coherent) {i : Nat} {c' : Check}
    (hc : ∀ sid owned busy, c' = .nested sid owned busy → ∃ b, at! s.checks i = .nested sid owned b) :
    { s with checks := s.checks.setIfInBounds i c' }.Coherent := by
  rcases hi : s.checks[i]? with _ | c
  · -- no check at `i`: nothing changes
    rw [Array.setIfInBounds_eq_of_size_le (Array.getElem?_eq_none_iff.mp hi)]
    exact h
  · exact h.set_check hi fun sid owned busy hc' => by
      rw [← at!_of_getElem? hi]
      exact hc sid owned busy hc'

/-- Changing a schema by `f`, which keeps its fields. -/
theorem update_schema (h : s.Coherent) (j : Nat) {f : Schema → Schema}
    (hf : ∀ x, (f x).fields = x.fields) :
    { s with schemas := s.schemas.setIfInBounds j (f (at! s.schemas j)) }.Coherent :=
  h.set_schema fun g hg => h.named_at j g (hf _ ▸ hg)

end Store.Coherent

namespace Tidy

variable {α β : Type}

/-- Reading a context and writing it back changed by `f`, then going on from what was read. -/
theorem update (j : Nat) {f : Context → Context} (hschema : ∀ c, (f c).schema = c.schema)
    (hkeyed : ∀ c, Messages.Keyed c.messages → Messages.Keyed (f c).messages)
    {k : Context → Run β} [hk : ∀ c, Tidy (k c)] :
    Tidy (Store.context j >>= fun c => Store.setContext j (f c) >>= fun _ => k c) :=
  of_stays fun s => Stays.bind (Stays.read _) fun c t hc => by
    cases hc
    exact Stays.bind (Stays.of_run (Store.run_setContext _ _ _) fun hs =>
      hs.update_context j hschema hkeyed) fun _ _ _ => (hk _).stays _

/-- Reading a schema and writing it back changed by `f`, which keeps its fields. -/
theorem updateSchema (j : Nat) {f : Schema → Schema} (hf : ∀ x, (f x).fields = x.fields)
    {k : Schema → Run β} [hk : ∀ x, Tidy (k x)] :
    Tidy (Store.schema j >>= fun x => Store.setSchema j (f x) >>= fun _ => k x) :=
  of_stays fun s => Stays.bind (Stays.read _) fun x t hx => by
    cases hx
    exact Stays.bind (Stays.of_run rfl fun hs => hs.update_schema j hf) fun _ _ _ => (hk _).stays _

/-- What a read answers is the part of the store it reads, and the store is left alone. -/
theorem ofContext (j : Nat) {k : Context → Run β}
    (hk : ∀ c, Messages.Keyed c.messages → Tidy (k c)) : Tidy (Store.context j >>= k) :=
  of_stays fun s => Stays.bind (Stays.read _) fun c t hc ht => by
    cases hc
    exact (hk _ (ht.keyed_at j)).keeps s ht

/-- A raise ends the block. -/
instance throw_bind {e : Fault} {f : α → Run β} : Tidy (throw e >>= f) :=
  of_same fun _ => ⟨rfl, rfl, rfl⟩

/-- Setting the check at `i` to one that is not nested. -/
theorem setCheck {i : Nat} {c : Check} (hc : ∀ sid owned busy, c ≠ .nested sid owned busy) :
    Tidy (Store.setCheck i c) :=
  ⟨fun _ hs => hs.set_check_at fun sid owned busy h => absurd h (hc sid owned busy)⟩

instance setLazyCheck (i lid : Nat) (field : Option String) (spec : Spec) (owner built : Option Nat) :
    Tidy (Store.setCheck i (.lazy lid field spec owner built)) :=
  setCheck (by simp)

end Tidy

/-! ### Messages and busy flags -/

/-- Replacing a context's messages by a map with no path twice. -/
theorem Context.setMessages_tidy (ctx : Nat) {m : List (String × String)} (hm : Messages.Keyed m) :
    Tidy (Context.setMessages ctx m) :=
  ⟨fun _ hs => hs.update_context ctx (f := fun c => { c with messages := m }) (fun _ => rfl)
    fun _ _ => hm⟩

instance Context.reset_tidy (ctx : Nat) : Tidy (Context.reset ctx) :=
  Context.setMessages_tidy ctx Messages.Keyed.nil

/-- Setting or clearing one path keeps the map free of repeated paths. -/
instance Context.setMessage_tidy (ctx : Nat) (field message : Value) :
    Tidy (Context.setMessage ctx field message) := by
  unfold Context.setMessage Context.hasField
  dsimp only
  split
  · refine @Tidy.bind _ _ _ _ inferInstance fun b => ?_
    split
    · exact Tidy.throw_bind
    -- whichever way the code goes, the map written is the context's own with one path changed
    split
    · refine Tidy.ofContext ctx fun c hc => ?_
      split
      · exact Context.setMessages_tidy ctx (hc.erase _)
      · exact Context.setMessages_tidy ctx (hc.put _ _)
    · have (key : String) := Tidy.ofContext ctx fun c hc => Context.setMessages_tidy ctx (hc.erase key)
      split <;> infer_instance
  · infer_instance

/-- Marking a nested-schema check busy or free keeps the context it owns. -/
instance Run.setBusy_tidy (node : Nat) (busy : Bool) : Tidy (Run.setBusy node busy) := by
  unfold Run.setBusy
  refine Tidy.of_stays fun s => Stays.bind (Stays.read _) fun c t hc => ?_
  cases hc
  split
  · rename_i sid owned b hnode
    exact Stays.of_run (Store.run_setCheck _ _ _) fun hs =>
      hs.set_check_at fun _ _ _ h => by cases h; exact ⟨b, hnode⟩
  · exact Stays.pure _

/-- Writing the fields' codes keeps the context's map free of repeated paths. -/
instance Run.apply_tidy (ctx : Nat) (results : List (String × Value)) :
    Tidy (Run.apply ctx results) :=
  ⟨fun s hs => by
    rw [Run.apply_run]
    exact (Context.setMessages_tidy ctx ((hs.keyed_at ctx).settle results)).keeps s hs⟩

/-- Ending a nested-schema check frees it and copies its messages up, one path at a time. -/
instance Run.release_tidy (node : Nat) (reentrant : Bool) (ctx : Option Nat) (path : String)
    (nested : Nat) (valid : Value) : Tidy (Run.release node reentrant ctx path nested valid) := by
  unfold Run.release
  refine @Tidy.bind _ _ _ _ inferInstance fun _ => ?_
  split
  · infer_instance
  · cases ctx <;> dsimp only <;> infer_instance

/-- Dropping a pending run clears hooks and frees checks, at every depth. -/
instance Run.abandon_tidy : ∀ (depth ctx : Nat), Tidy (Run.abandon depth ctx)
  | 0, _ => by rw [Run.abandon]; infer_instance
  | depth + 1, ctx => by
    have := Run.abandon_tidy depth
    rw [Run.abandon]
    exact Tidy.update ctx (f := fun c => { c with hooks := [] }) (fun _ => rfl) fun _ h => h

/-! ### The check runner -/

/-- Trying union candidates is tidy when each candidate's check is. -/
instance Run.attempts_tidy {run : Nat → Run Outcome} [∀ node, Tidy (run node)]
    (all : List (Option Bool × Nat)) (v : Value) (path : String) (i : Nat)
    (rest : List (Option Bool × Nat)) (error : Value) :
    Tidy (Run.attempts run all v path i rest error) := by
  induction rest generalizing i error with
  | nil => rw [Run.attempts.eq_1]; infer_instance
  | cons candidate more ih =>
    have := ih
    rw [Run.attempts.eq_def]
    dsimp only
    split
    all_goals
      refine @Tidy.bind _ _ _ _ inferInstance fun o => ?_
      split <;> infer_instance

/-- Checking array elements is tidy when the element check is. -/
instance Run.elements_tidy {run : Value → String → Run Outcome} [∀ x q, Tidy (run x q)]
    (element : Nat) (items : List Value) (ctx : Option Nat) (path : String) (i : Nat)
    (rest : List Value) (failed : Value) :
    Tidy (Run.elements run element items ctx path i rest failed) := by
  induction rest generalizing i failed with
  | nil => rw [Run.elements.eq_1]; infer_instance
  | cons x more ih =>
    have := ih
    rw [Run.elements.eq_2]
    refine @Tidy.bind _ _ _ _ inferInstance fun o => ?_
    split <;> infer_instance

/-- Running a schema's fields is tidy when each validator is. -/
instance Run.fields_tidy {run : Validator → Value → Run Outcome} [∀ val x, Tidy (run val x)]
    (es : List (Value × Value)) (fs : List (String × Field)) : Tidy (Run.fields run es fs) := by
  induction fs with
  | nil => rw [Run.fields.eq_1]; infer_instance
  | cons f rest ih =>
    have := ih
    rw [Run.fields.eq_2]
    infer_instance

/-- At depth `d`, every function of the check runner is tidy. -/
structure RunTidy (d : Nat) : Prop where
  check : ∀ node v ctx path, Tidy (Run.check d node v ctx path)
  context : ∀ ctx data, Tidy (Run.context d ctx data)
  start : ∀ ctx data, Tidy (Run.start d ctx data)
  validator : ∀ val v ctx, Tidy (Run.validator d val v ctx)

namespace RunTidy

variable {d : Nat}

theorem zero : RunTidy 0 where
  check _ _ _ _ := by rw [Run.check]; infer_instance
  context _ _ := by rw [Run.context]; infer_instance
  start _ _ := by rw [Run.start]; infer_instance
  validator _ _ _ := by rw [Run.validator]; infer_instance

/-- A nested-schema check takes its owned context, or a fresh one while that one is busy: either
way no check changes, so the rest of the run starts from a store with the same checks. -/
theorem nested_stays {s : Store} {sid owned : Nat} {busy : Bool} {jp : Nat → Run Outcome}
    (hjp : ∀ inner (u : Store), u.checks = s.checks → Stays Store.Coherent (jp inner) u) :
    Stays Store.Coherent (if busy = true then Context.create sid >>= jp else jp owned) s := by
  cases busy
  · exact hjp owned s rfl
  · exact Stays.bind ((inferInstance : Tidy (Context.create sid)).stays s) fun inner u hu => by
      rw [Context.create, Store.run_addContext] at hu
      cases hu
      exact hjp _ _ rfl

theorem check_succ (ih : RunTidy d) (node : Nat) (v : Value) (ctx : Option Nat) (path : String) :
    Tidy (Run.check (d + 1) node v ctx path) := by
  have := ih.check
  have := ih.context
  rw [Run.check.eq_2]
  refine Tidy.of_stays fun s => Stays.bind (Stays.read _) fun c t hc => ?_
  obtain ⟨hnode, rfl⟩ := Store.read_ok hc
  cases c with
  | nested sid owned busy =>
    refine nested_stays fun inner u hu => ?_
    -- the check just read is marked busy: its schema and owned context stay
    refine Stays.bind (Stays.of_run (Store.run_setCheck _ _ _) fun hs =>
      hs.set_check_at fun _ _ _ h => by cases h; exact ⟨busy, hu ▸ hnode⟩) fun _ w _ => ?_
    refine Tidy.stays ?_ w
    refine @Tidy.bind _ _ _ _ (@Tidy.tryCatch _ _ _ inferInstance fun e => ?_) fun answer => ?_
    · refine @Tidy.bind _ _ _ _ inferInstance fun _ => ?_
      split <;> infer_instance
    · rcases answer with _ | (valid | k)
      · infer_instance
      · infer_instance
      · rcases ctx with _ | c₀
        · infer_instance
        · exact Tidy.update c₀ (f := fun cx => { cx with hooks := cx.hooks ++ [⟨node, busy, inner⟩] })
            (fun _ => rfl) fun _ h => h
  | array e lo hi =>
    refine Tidy.stays ?_ s
    dsimp only
    split
    · infer_instance
    · split_ifs <;> infer_instance
  | lazy lid field spec owner built =>
    refine Tidy.stays ?_ s
    cases built <;> dsimp only <;> infer_instance
  | custom inner rule =>
    refine Tidy.stays ?_ s
    dsimp only
    refine @Tidy.bind _ _ _ _ inferInstance fun o => ?_
    split
    · split <;> infer_instance
    · infer_instance
  | _ => exact Tidy.stays (by dsimp only; infer_instance) s

theorem context_succ (ih : RunTidy d) (ctx : Nat) (data : Value) :
    Tidy (Run.context (d + 1) ctx data) := by
  have := ih.start
  rw [Run.context.eq_def]
  dsimp only
  refine @Tidy.bind _ _ _ _ inferInstance fun results => ?_
  split <;> infer_instance

/-- Starting a run marks the keys that name no field in the run's own context, which keeps its
schema and a map with no path twice. -/
theorem start_succ (ih : RunTidy d) (ctx : Nat) (data : Value) :
    Tidy (Run.start (d + 1) ctx data) := by
  have := ih.validator
  refine ⟨fun s hs => ?_⟩
  by_cases hdict : ∃ es, data = .dict es
  · obtain ⟨es, rfl⟩ := hdict
    rw [Run.start_dict]
    refine (inferInstance : Tidy (Run.fields _ es _)).keeps _ ?_
    exact hs.update_context ctx (f := fun c =>
      { schema := c.schema
        messages := Messages.putAll
          (Messages.notIn (Store.namingIn s) (Store.fieldNamesIn s c.schema) es)
          (c.messages.filter fun x => (Store.fieldNamesIn s c.schema).contains x.1) })
      (fun _ => rfl) fun _ h => (h.filter _).putAll _
  · rw [Run.start_notMapping d ctx (fun es h => hdict ⟨es, h⟩)]
    exact hs

theorem validator_succ (ih : RunTidy d) (val : Validator) (v : Value) (ctx : Option Nat) :
    Tidy (Run.validator (d + 1) val v ctx) := by
  have := ih.check
  rw [Run.validator.eq_def]
  dsimp only
  repeat' split
  all_goals
    refine @Tidy.bind _ _ _ _ inferInstance fun o => ?_
    split <;> infer_instance

theorem succ (ih : RunTidy d) : RunTidy (d + 1) where
  check := check_succ ih
  context := context_succ ih
  start := start_succ ih
  validator := validator_succ ih

end RunTidy

/-- **The check runner is tidy at every depth**: whatever it answers or raises, it leaves a
coherent store coherent. -/
theorem Run.tidy : ∀ d, RunTidy d
  | 0 => .zero
  | d + 1 => (Run.tidy d).succ

instance Run.check_tidy (d node : Nat) (v : Value) (ctx : Option Nat) (path : String) :
    Tidy (Run.check d node v ctx path) := (Run.tidy d).check node v ctx path

instance Run.context_tidy (d ctx : Nat) (data : Value) : Tidy (Run.context d ctx data) :=
  (Run.tidy d).context ctx data

instance Run.validator_tidy (d : Nat) (val : Validator) (v : Value) (ctx : Option Nat) :
    Tidy (Run.validator d val v ctx) := (Run.tidy d).validator val v ctx

instance Run.resume_tidy (d : Nat) (k : Step) (x : Value) : Tidy (Run.resume d k x) := by
  unfold Run.resume
  split
  · infer_instance
  · split <;> infer_instance
  · split <;> infer_instance
  · infer_instance
  · infer_instance

/-- A synchronous run writes back, when it is refused, the map the context had before it. -/
instance Run.validate_tidy (ctx : Nat) (data : Value) : Tidy (Run.validate ctx data) := by
  have := (Run.tidy Run.depth).start
  unfold Run.validate
  refine Tidy.ofContext ctx fun c hc => ?_
  have := Context.setMessages_tidy ctx hc
  refine @Tidy.bind _ _ _ _ inferInstance fun results => ?_
  dsimp only
  split <;> infer_instance

/-! ### The event loop

The loop's own state (tasks, gathers, batches, the queue) is not looked at by coherence; what
its tasks run is the runner's resumed work, rules and the writing of a context's codes. -/

namespace Loop

instance attempt_tidy {α : Type} (m : Run α) [Tidy m] : Tidy (attempt m) := by
  unfold attempt
  infer_instance

instance finish_tidy (tid : Nat) (r : Except Fault Value) : Tidy (finish tid r) := by
  unfold finish
  infer_instance

instance waitOn_tidy (tid : Nat) (frames : List Frame) (on : Awaited) :
    Tidy (waitOn tid frames on) := by
  unfold waitOn
  refine @Tidy.bind _ _ _ _ inferInstance fun _ => @Tidy.bind _ _ _ _ inferInstance fun _ => ?_
  split <;> infer_instance

instance gatherAll_tidy (coros : List Coro) : Tidy (gatherAll coros) := by
  unfold gatherAll
  infer_instance

/-- At depth `d`, running a task's frames and beginning a coroutine are tidy. -/
structure LoopTidy (d : Nat) : Prop where
  advance : ∀ tid frames input, Tidy (Loop.advance d tid frames input)
  begin : ∀ tid c rest, Tidy (Loop.begin d tid c rest)

namespace LoopTidy

variable {d : Nat}

theorem zero : LoopTidy 0 where
  advance _ _ _ := by rw [Loop.advance]; infer_instance
  begin _ _ _ := by rw [Loop.begin]; infer_instance

theorem advance_succ (ih : LoopTidy d) (tid : Nat) (frames : List Frame) (input : Resume) :
    Tidy (Loop.advance (d + 1) tid frames input) := by
  have := ih.advance
  have := ih.begin
  rw [Loop.advance.eq_def]
  dsimp only
  split <;> try infer_instance
  all_goals
    refine @Tidy.bind _ _ _ _ inferInstance fun r => ?_
    split <;> infer_instance

theorem begin_succ (ih : LoopTidy d) (tid : Nat) (c : Coro) (rest : List Frame) :
    Tidy (Loop.begin (d + 1) tid c rest) := by
  have := ih.advance
  rw [Loop.begin.eq_def]
  dsimp only
  split <;> try infer_instance
  -- waiting for a batch: its settling task is found or started, then its result read
  refine @Tidy.bind _ _ _ _ inferInstance fun bt => ?_
  split
  · infer_instance
  split
  all_goals
    repeat refine @Tidy.bind _ _ _ _ inferInstance fun _ => ?_
    split <;> infer_instance

theorem succ (ih : LoopTidy d) : LoopTidy (d + 1) where
  advance := advance_succ ih
  begin := begin_succ ih

end LoopTidy

/-- **The event loop's steps are tidy at every depth.** -/
theorem tidy : ∀ d, LoopTidy d
  | 0 => .zero
  | d + 1 => (tidy d).succ

instance stepTask_tidy (tid : Nat) (input : Resume) : Tidy (stepTask tid input) := by
  have := (tidy Run.depth).advance
  unfold stepTask
  infer_instance

instance childDone_tidy (g child : Nat) : Tidy (childDone g child) := by
  unfold childDone
  refine @Tidy.bind _ _ _ _ inferInstance fun x => ?_
  dsimp only
  split
  · infer_instance
  refine @Tidy.bind _ _ _ _ inferInstance fun t => ?_
  split
  · infer_instance
  split
  · -- every child's value, read where it finished
    refine @Tidy.bind _ _ _ _ (@Tidy.mapM _ _ _ (fun c => ?_) _) fun _ => inferInstance
    refine @Tidy.bind _ _ _ _ inferInstance fun t => ?_
    split <;> infer_instance
  · infer_instance

instance handle_tidy (h : Handle) : Tidy (handle h) := by
  have (on : Awaited) : Tidy (resultOf on) := by cases on <;> unfold resultOf <;> infer_instance
  unfold handle
  split
  · infer_instance
  · refine @Tidy.bind _ _ _ _ inferInstance fun r => ?_
    dsimp only
    split <;> infer_instance
  · infer_instance
  · infer_instance

/-- Each round takes the queue as it stands and empties it, which changes nothing coherence
reads. -/
instance rounds_tidy : ∀ fuel, Tidy (rounds fuel)
  | 0 => by rw [rounds]; infer_instance
  | fuel + 1 => by
    have := rounds_tidy fuel
    rw [rounds]
    refine Tidy.of_stays fun s => Stays.bind (Stays.of_run (Run.run_get s) id) fun s' t h => ?_
    cases h
    refine Stays.bind (Stays.of_run (Run.run_set _ _) fun hs => hs.of_same rfl rfl rfl)
      fun _ u _ => Tidy.stays ?_ u
    refine @Tidy.bind _ _ _ _ inferInstance fun stopped => ?_
    refine @Tidy.bind _ _ _ _ inferInstance fun r => ?_
    split <;> infer_instance

instance run_tidy (c : Coro) : Tidy (run c) := by
  unfold run
  have : Tidy (modify fun s : Store => { s with ready := [] } : Run Unit) :=
    Tidy.of_modify fun _ => ⟨rfl, rfl, rfl⟩
  refine @Tidy.bind _ _ _ _ inferInstance fun _ => @Tidy.bind _ _ _ _ inferInstance fun main => ?_
  refine @Tidy.bind _ _ _ _ inferInstance fun _ => @Tidy.bind _ _ _ _ inferInstance fun _ => ?_
  refine @Tidy.bind _ _ _ _ inferInstance fun _ => @Tidy.bind _ _ _ _ inferInstance fun t => ?_
  split <;> infer_instance

instance await_tidy : ∀ (fuel : Nat) (c : Coro), Tidy (await fuel c)
  | 0, _ => by rw [await]; infer_instance
  | fuel + 1, c => by
    have := await_tidy fuel
    cases c with
    | rule inner v =>
      rw [await]
      refine @Tidy.bind _ _ _ _ inferInstance fun o => ?_
      split <;> infer_instance
    | chain src k =>
      rw [await]
      refine @Tidy.bind _ _ _ _ inferInstance fun x => @Tidy.bind _ _ _ _ inferInstance fun o => ?_
      split <;> infer_instance
    | _ => rw [await]; infer_instance

instance settle_tidy (o : Outcome) : Tidy (settle o) := by
  cases o <;> unfold settle <;> infer_instance

end Loop

/-! ### Validating, batches and frames -/

namespace Validation

instance validate_tidy (ctx : Nat) (data : Value) : Tidy (validate ctx data) := by
  unfold validate
  infer_instance

instance validateAsync_tidy (ctx : Nat) (data : Value) : Tidy (validateAsync ctx data) := by
  unfold validateAsync
  infer_instance

instance field_tidy (val : Validator) (v : Value) (ctx : Option Nat) : Tidy (field val v ctx) := by
  unfold field
  refine @Tidy.bind _ _ _ _ inferInstance fun o => ?_
  split <;> infer_instance

instance isMember_tidy : ∀ (depth : Nat) (tag : Tag) (v : Value), Tidy (isMember depth tag v)
  | 0, _, _ => by rw [isMember]; infer_instance
  | depth + 1, tag, v => by
    have := isMember_tidy depth
    rw [isMember.eq_def]
    dsimp only
    split
    · infer_instance
    · infer_instance
    · infer_instance
    · refine @Tidy.bind _ _ _ _ inferInstance fun a => ?_
      split <;> infer_instance
    · infer_instance
    · infer_instance

end Validation

instance Batch.create_tidy (schema : Nat) (data : Value) : Tidy (Batch.create schema data) := by
  unfold Batch.create
  dsimp only
  -- the same block follows the data when it is none or a mapping, and the fault otherwise
  split <;> refine @Tidy.bind _ _ _ _ inferInstance fun es => ?_
  case h_3 => exact Tidy.throw_bind
  all_goals
    refine @Tidy.bind _ _ _ _ inferInstance fun sch => ?_
    split
    · refine @Tidy.bind _ _ _ _ (@Tidy.mapM _ _ _ (fun kv => ?_) _) fun _ => inferInstance
      obtain ⟨k, v⟩ := kv
      infer_instance
    · refine @Tidy.bind _ _ _ _ (@Tidy.mapM _ _ _ (fun nf => ?_) _) fun _ => inferInstance
      obtain ⟨n, f⟩ := nf
      infer_instance

instance Batch.wait_tidy (id : Nat) : Tidy (Batch.wait id) := by
  unfold Batch.wait
  infer_instance

namespace Frame

instance scan_tidy (ctx : Nat) : ∀ (rows : List Value) (i : Nat) (acc : List Violation),
    Tidy (scan ctx rows i acc)
  | [], _, _ => by rw [scan]; infer_instance
  | r :: rows, i, acc => by
    have := scan_tidy ctx rows (i + 1)
    rw [scan]
    refine @Tidy.bind _ _ _ _ inferInstance fun _ => @Tidy.bind _ _ _ _ inferInstance fun b => ?_
    dsimp only
    split <;> infer_instance

instance validateRows_tidy (schema : Nat) (records : List Value) (strict : Bool) :
    Tidy (validateRows schema records strict) := by
  unfold validateRows
  refine @Tidy.bind _ _ _ _ inferInstance fun ctx => @Tidy.bind _ _ _ _ inferInstance fun vs => ?_
  split <;> infer_instance

instance validate_tidy (schema : Nat) (columns : List Column) (strict : Bool) :
    Tidy (validate schema columns strict) := by
  unfold validate
  dsimp only
  -- a frame of the wrong shape, or whose rows cannot be read, is refused before anything runs
  split
  · split
    · exact @Tidy.bind _ _ _ _ inferInstance fun _ => inferInstance
    · exact Tidy.throw_bind
  · exact Tidy.throw_bind

end Frame

/-- Building a column remembers the classes of host objects it met, which coherence does not
read. -/
instance Column.make_tidy (n : Naming) (name : String) (type : ColumnType) (values : List Value) :
    Tidy (Column.make n name type values) := by
  unfold Column.make
  refine @Tidy.bind _ _ _ _ inferInstance fun known => ?_
  refine @Tidy.bind _ _ _ _ (Tidy.of_same fun _ => ⟨rfl, rfl, rfl⟩) fun _ => ?_
  split <;> infer_instance

/-! ### Schemas and registries -/

namespace Schema

/-- Replacing or appending a field named after its validator keeps every field named so. -/
theorem named_putField {name : String} {f : Field} (hf : f.validator.field = some name) :
    ∀ {fs : List (String × Field)}, (∀ g ∈ fs, g.2.validator.field = some g.1) →
      ∀ g ∈ putField name f fs, g.2.validator.field = some g.1
  | [], _, g, hg => by
    rw [putField, List.mem_singleton] at hg
    subst hg
    exact hf
  | (n, g') :: rest, hfs, g, hg => by
    unfold putField at hg
    split at hg
    · rename_i hn
      subst hn
      rcases List.mem_cons.mp hg with rfl | hg
      · exact hf
      · exact hfs g (List.mem_cons_of_mem _ hg)
    · rcases List.mem_cons.mp hg with rfl | hg
      · exact hfs _ List.mem_cons_self
      · exact named_putField hf (fun g hg => hfs g (List.mem_cons_of_mem _ hg)) g hg

theorem named_foldl_putField :
    ∀ {built fs : List (String × Field)}, (∀ g ∈ built, g.2.validator.field = some g.1) →
      (∀ g ∈ fs, g.2.validator.field = some g.1) →
      ∀ g ∈ built.foldl (fun acc x => putField x.1 x.2 acc) fs, g.2.validator.field = some g.1
  | [], _, _, hfs => hfs
  | x :: built, _, hbuilt, hfs => by
    rw [List.foldl_cons]
    exact named_foldl_putField (fun g hg => hbuilt g (List.mem_cons_of_mem _ hg))
      (named_putField (hbuilt x List.mem_cons_self) hfs)

instance merge_tidy (previous : Option Value) (patch : Value) : Tidy (merge previous patch) := by
  unfold merge asOptions
  split
  · refine @Tidy.bind _ _ _ _ ?_ fun _ => inferInstance
    split
    · split <;> infer_instance
    · split <;> infer_instance
    · infer_instance
  · infer_instance

/-- An extension replaces the schema's fields by its old fields with the new ones put in, each
named after its validator. -/
instance extend_tidy (id : Nat) (patch : Value) : Tidy (extend id patch) := by
  unfold extend
  dsimp only
  split <;> refine @Tidy.bind _ _ _ _ inferInstance fun es => ?_
  all_goals
    refine @Tidy.bind _ _ _ _ inferInstance fun sch => ?_
    refine @Tidy.bind _ _ _ _ (@Tidy.foldlM _ _ _ (fun b a => ?_) _ _) fun decls => ?_
    · obtain ⟨k, d⟩ := a
      infer_instance
    refine @Tidy.bind _ _ _ _ inferInstance fun specs => ?_
    refine Tidy.of_stays fun s => Stays.bind ((inferInstance : Tidy (Build.fields _ _)).stays s)
      fun built t hbuilt => Stays.bind (Stays.read _) fun sch' u hu => ?_
    obtain ⟨rfl, rfl⟩ := Store.read_ok hu
    exact Stays.of_run (Store.run_setSchema _ _ _) fun hs =>
      hs.set_schema (named_foldl_putField (Build.fields_named hbuilt) (hs.named_at id))

/-- Sharing a context under a name adds it to the schema's named contexts, not to its fields. -/
instance context_tidy (id : Nat) (name : Value) : Tidy (context id name) := by
  unfold context
  split
  · infer_instance
  split
  · infer_instance
  refine @Tidy.bind _ _ _ _ inferInstance fun sch => ?_
  split
  · infer_instance
  refine @Tidy.bind _ _ _ _ inferInstance fun ctx => ?_
  exact Tidy.updateSchema id (f := fun x => { x with named := x.named ++ [(name, ctx)] }) (fun _ => rfl)

end Schema

namespace Registry

instance lookup_tidy (id : Nat) (key : Value) : Tidy (lookup id key) := by
  unfold lookup
  infer_instance

instance isPrimitive_tidy (id : Nat) (v : Value) : Tidy (isPrimitive id v) := by
  unfold isPrimitive
  split <;> infer_instance

instance register_tidy (id : Nat) (key tag : Value) : Tidy (register id key tag) := by
  unfold register
  refine @Tidy.bind _ _ _ _ inferInstance fun r => ?_
  dsimp only
  split
  · infer_instance
  · split
    · split <;> infer_instance
    · infer_instance

instance unregister_tidy (id : Nat) (key : Value) : Tidy (unregister id key) := by
  unfold unregister
  refine @Tidy.bind _ _ _ _ inferInstance fun r => ?_
  dsimp only
  split
  · infer_instance
  · split
    · infer_instance
    · split <;> infer_instance

end Registry

/-! ### Sessions -/

/-- The store a session starts with has no schema, context or check. -/
theorem Store.coherent_initial : Store.initial.Coherent where
  owned _ _ _ _ h := by simp [Store.initial] at h
  unique _ _ _ _ _ _ _ h := by simp [Store.initial] at h
  keyed _ _ h := by simp [Store.initial] at h
  named _ _ h := by simp [Store.initial] at h

instance Term.evalList_tidy (ts : List Term) : Tidy (Term.evalList ts) :=
  @Tidy.of_adding _ _ (Term.evalList_adding ts)

namespace Session

instance schemaId_tidy (name : String) : Tidy (schemaId name) := by
  unfold schemaId
  refine @Tidy.bind _ _ _ _ inferInstance fun r => ?_
  split <;> infer_instance

instance handleId_tidy (handles : List (String × Nat)) (h : String) : Tidy (handleId handles h) := by
  unfold handleId
  split <;> infer_instance

instance registryId_tidy (name : String) : Tidy (registryId name) := by
  unfold registryId
  infer_instance

instance optionMapM_tidy {α β : Type} {f : α → Run β} [∀ a, Tidy (f a)] (o : Option α) :
    Tidy (o.mapM f) := by
  cases o <;> dsimp only [Option.mapM] <;> infer_instance

instance evalOptional_tidy (t : Option Term) : Tidy (evalOptional t) := by
  cases t <;> unfold evalOptional <;> infer_instance

instance runEach_tidy (val : Validator) (values : List Term) (ctx : Option Nat) :
    Tidy (runEach val values ctx) := by
  unfold runEach
  infer_instance

instance awaitReport_tidy (id : Nat) : Tidy (awaitReport id) := by
  unfold awaitReport
  infer_instance

instance memberReport_tidy (t : Tag) (value : Term) : Tidy (memberReport t value) := by
  unfold memberReport
  refine @Tidy.bind _ _ _ _ inferInstance fun r => ?_
  split <;> infer_instance

/-- Naming a schema or a registry changes only the session's names. -/
theorem change_names_tidy {f : Store → Store}
    (hf : ∀ s, (f s).schemas = s.schemas ∧ (f s).contexts = s.contexts ∧ (f s).checks = s.checks) :
    Tidy (Store.change f) :=
  Tidy.of_modify hf

/-- What an operation leaves in the store is the session's store after it. -/
theorem attempt_snd {α : Type} (x : Session) (m : Run α) :
    (attempt x m).2 = { x with store := (m.run.run x.store).2 } := by
  unfold attempt
  rcases m.run.run x.store with ⟨r, t⟩
  rfl

theorem attempt_eq {α : Type} {x y : Session} {m : Run α} {r : Except Fault α}
    (h : attempt x m = (r, y)) : y = { x with store := (m.run.run x.store).2 } := by
  rw [← attempt_snd, h]

theorem answer_snd (x : Session) (m : Run Report) :
    (answer x m).2 = { x with store := (m.run.run x.store).2 } := by
  unfold answer
  split <;> rename_i y h <;> rw [← attempt_snd x m, h]

/-- A tidy operation keeps the session's store coherent, whether it answers or raises. -/
theorem answer_coherent (x : Session) {m : Run Report} (hm : Tidy m) (hx : x.store.Coherent) :
    (answer x m).2.store.Coherent := by
  rw [answer_snd]
  exact hm.keeps _ hx

/-- **Each command keeps its session's store coherent**, whether it answers, raises or is
refused, and however far it got before it failed. -/
theorem exec_coherent (x : Session) (c : Command) (hx : x.store.Coherent) :
    (exec x c).2.store.Coherent := by
  have hschemaNames (name : String) (id : Nat) :
      Tidy (Store.change fun s => { s with schemaNames := bind name id s.schemaNames }) :=
    change_names_tidy fun _ => ⟨rfl, rfl, rfl⟩
  have hregistryNames (name : String) (id : Nat) :
      Tidy (Store.change fun s => { s with registryNames := bind name id s.registryNames }) :=
    change_names_tidy fun _ => ⟨rfl, rfl, rfl⟩
  cases c with
  | defineRegistry name parent =>
    refine answer_coherent x ?_ hx
    dsimp only
    split <;> infer_instance
  | lookup registry key =>
    refine answer_coherent x ?_ hx
    refine @Tidy.bind _ _ _ _ inferInstance fun id => @Tidy.bind _ _ _ _ inferInstance fun k => ?_
    refine @Tidy.bind _ _ _ _ inferInstance fun r => ?_
    split <;> infer_instance
  | getType registry decl =>
    refine answer_coherent x ?_ hx
    refine @Tidy.bind _ _ _ _ inferInstance fun id => @Tidy.bind _ _ _ _ inferInstance fun d => ?_
    refine @Tidy.bind _ _ _ _ inferInstance fun r => ?_
    dsimp only
    split <;> infer_instance
  | check decl values options registry =>
    refine answer_coherent x ?_ hx
    refine @Tidy.bind _ _ _ _ inferInstance fun d => @Tidy.bind _ _ _ _ inferInstance fun specs => ?_
    refine @Tidy.bind _ _ _ _ inferInstance fun built => @Tidy.bind _ _ _ _ inferInstance fun _ => ?_
    split <;> infer_instance
  | compile fields values registry =>
    refine answer_coherent x ?_ hx
    refine @Tidy.bind _ _ _ _ inferInstance fun fv => ?_
    dsimp only
    -- the fields' values are read as a mapping (none when false), then each named validator run
    split
    on_goal 2 => split
    on_goal 3 => exact Tidy.throw_bind
    all_goals
      refine @Tidy.bind _ _ _ _ inferInstance fun entries => ?_
      refine @Tidy.bind _ _ _ _ inferInstance fun reg => ?_
      refine @Tidy.bind _ _ _ _ inferInstance fun specs => ?_
      refine @Tidy.bind _ _ _ _ inferInstance fun built => ?_
      refine @Tidy.bind _ _ _ _ (@Tidy.mapM _ _ _ (fun nts => ?_) _) fun _ => inferInstance
      obtain ⟨name, ts⟩ := nts
      dsimp only
      split
      · infer_instance
      · split <;> infer_instance
  | openContext schema name handle =>
    rw [exec]
    split <;> rename_i h <;> obtain rfl := attempt_eq h <;>
      exact (inferInstance : Tidy (schemaId schema >>= fun id =>
        evalOptional name >>= fun v => Schema.context id v)).keeps _ hx
  | validate source data options async =>
    refine answer_coherent x ?_ hx
    dsimp only
    split <;> infer_instance
  | getMessage h field =>
    refine answer_coherent x ?_ hx
    refine @Tidy.bind _ _ _ _ inferInstance fun ctx => @Tidy.bind _ _ _ _ inferInstance fun f => ?_
    refine @Tidy.bind _ _ _ _ inferInstance fun c => ?_
    split
    · infer_instance
    · split <;> infer_instance
  | field schema name value options context =>
    refine answer_coherent x ?_ hx
    refine @Tidy.bind _ _ _ _ inferInstance fun id => @Tidy.bind _ _ _ _ inferInstance fun sch => ?_
    split
    · dsimp only
      split <;> infer_instance
    · infer_instance
  | batch schema data options handle await =>
    rw [exec]
    have hcreate : Tidy (schemaId schema >>= fun id => Term.eval data >>= fun d =>
        evalOptional options >>= fun _ => Batch.create id d) := inferInstance
    split
    · rename_i h
      obtain rfl := attempt_eq h
      exact hcreate.keeps _ hx
    · rename_i id y h
      obtain rfl := attempt_eq h
      have hy := hcreate.keeps _ hx
      dsimp only
      split
      · split <;> rename_i h <;> obtain rfl := attempt_eq h <;>
          exact (inferInstance : Tidy (awaitReport id)).keeps _ (by cases handle <;> exact hy)
      · cases handle <;> exact hy
  | frame schema columns strict =>
    refine answer_coherent x ?_ hx
    refine @Tidy.bind _ _ _ _ inferInstance fun id => @Tidy.bind _ _ _ _ ?_ fun cols => inferInstance
    refine @Tidy.mapM _ _ _ (fun c => ?_) _
    obtain ⟨n, t, cells⟩ := c
    infer_instance
  | _ => exact answer_coherent x inferInstance hx

/-- **Every store a session reaches from a coherent one is coherent**, command after command. -/
theorem coherent_runFrom : ∀ (cs : List Command) (x : Session), x.store.Coherent →
    (runFrom x cs).2.store.Coherent
  | [], _, hx => hx
  | c :: cs, x, hx => coherent_runFrom cs (exec x c).2 (exec_coherent x c hx)

/-- **Every store a session reaches from its start is coherent**, after any commands, whatever
each of them answered, raised or refused, and whichever classes the host already keeps as
objects. So a context, a batch or a frame validated in a session is validated from a coherent
store, as `Run.validate_leaves`, `Run.batch_agrees` and `Frame.validate_reports` assume. -/
theorem coherent_run (objects : List String) (cs : List Command) :
    (runFrom { store := { Store.initial with hostObjects := objects } } cs).2.store.Coherent :=
  coherent_runFrom cs _ (Store.coherent_initial.of_same rfl rfl rfl)

end Session

end Schematic
