import Mathlib
import Schematic.Proofs.Footprint
import Schematic.Proofs.Agreement

/-!
# Refused synchronous runs

A synchronous run of a context cannot wait. When some field validator answers with an awaitable
the run is refused with `pending`, naming the pending fields in sorted order, and undone: the
context's messages are put back as they were before the run, and since no run ever adds or
changes pending work (`Run.commutes`), none of the awaitables the run made is waiting anywhere
to be resumed. A value that is not a mapping is refused before anything changes.

Main statement: `Run.validate_refused`, assembled from

* `Run.fields_names`, `Run.start_names`: a run's results name the schema's fields, in order;
* `Run.validate_work`: a synchronous run leaves the pending work as it found it and drops no
  context;
* `Run.start_notMapping`: the refusal of a value that is not a mapping.

A field validator that raises ends the run with its own fault, even after an earlier field
answered later, and then nothing is undone (`validate_raises_after_pending`).
-/

namespace Schematic

namespace Run

/-- The results of running some fields name those fields, in order. -/
theorem fields_names (run : Validator → Value → Run Outcome) (es : List (Value × Value))
    (fs : List (String × Field)) :
    ∀ s : Store, Yields (fields run es fs) s fun rs _ => rs.map Prod.fst = fs.map Prod.fst := by
  induction fs with
  | nil =>
    intro s
    rw [fields.eq_1]
    exact Yields.pure rfl
  | cons f rest ih =>
    intro s
    rw [fields.eq_2]
    refine Yields.bind fun o t _ => Yields.bind fun rs u hrs => Yields.pure ?_
    rw [List.map_cons, List.map_cons, ih t rs u hrs]

/-- The results of a run of a context name the fields of its schema, in order. -/
theorem start_names (d ctx : Nat) (es : List (Value × Value)) (s : Store) :
    Yields (start d ctx (.dict es)) s fun rs _ =>
      rs.map Prod.fst = Store.fieldNamesIn s (Store.at! s.contexts ctx).schema := by
  rcases d with _ | d
  · rw [start]
    exact Yields.throw _
  rw [start.eq_2]
  refine Yields.bind (Yields.read ?_)
  dsimp only
  refine Yields.bind (Yields.pure (Yields.bind (Yields.read ?_)))
  -- marking the keys that name no field only reads the store
  refine Yields.bind (Yields.of_eq (forIn_run _ (fun x m =>
    if (!namesField (((Store.at! s.schemas (Store.at! s.contexts ctx).schema)).fields.map (·.1))
      x.1) = true then Messages.put (x.1.plain (Store.namingIn s)) "notInSchema" m else m) s
    (fun x m => ?_) es _) fun m hm => ?_)
  · split <;> rfl
  refine Yields.bind (Yields.of_eq (Store.run_setContext _ _ _) fun _ _ => ?_)
  exact (fields_names _ es _ _).mono fun rs _ h => h

/-- A value that is not a mapping is refused before anything changes. -/
theorem start_notMapping (d ctx : Nat) {v : Value} (hv : ∀ es, v ≠ .dict es) (s : Store) :
    (start (d + 1) ctx v).run.run s =
      (.error (.notMapping (Store.schemaNameIn s (Store.at! s.contexts ctx).schema) v.typeName), s) := by
  rw [start.eq_2, Run.run_bind]
  simp only [Store.run_context]
  rfl

/-- **A synchronous run leaves the pending work as it found it and drops no context.** -/
theorem validate_work (ctx : Nat) (data : Value) (s : Store) :
    let u := ((validate ctx data).run.run s).2
    u.batches = s.batches ∧ u.tasks = s.tasks ∧ u.gathers = s.gathers ∧ u.ready = s.ready ∧
      s.contexts.size ≤ u.contexts.size :=
  ⟨(Commutes.work_eq (fun _ _ _ _ => inferInstance) s).1,
    (Commutes.work_eq (fun _ _ _ _ => inferInstance) s).2.1,
    (Commutes.work_eq (fun _ _ _ _ => inferInstance) s).2.2.1,
    (Commutes.work_eq (fun _ _ _ _ => inferInstance) s).2.2.2,
    Commutes.contexts_le (fun _ => inferInstance) s⟩

/-- The names of the fields that answered later, sorted. -/
def pendingNames (rs : List (String × Outcome)) : List String :=
  (rs.filterMap fun x => if Outcome.isLater x.2 then some x.1 else none).mergeSort
    fun a b => decide (a ≤ b)

/-- **A synchronous run is refused exactly when a field answers later, and is then undone.**

From any store: a value that is not a mapping is refused before anything changes. On a mapping
on which every field validator returns, the results name the fields of the context's schema in
order; the run answers when no field answered later, and otherwise raises `pending` with the
sorted names of the pending fields, leaving the context's messages as they were before the run
and the pending work (batch results, tasks, gathers, ready queue) as it was. -/
theorem validate_refused (ctx : Nat) (s : Store) :
    (∀ v, (∀ es, v ≠ .dict es) → (validate ctx v).run.run s =
      (.error (.notMapping (Store.schemaNameIn s (Store.at! s.contexts ctx).schema) v.typeName), s)) ∧
    ∀ es rs t, (start depth ctx (.dict es)).run.run s = (.ok rs, t) →
      rs.map Prod.fst = Store.fieldNamesIn s (Store.at! s.contexts ctx).schema ∧
      match (validate ctx (.dict es)).run.run s with
      | (.ok _, _) => rs.all fun x => !Outcome.isLater x.2
      | (.error e, u) => rs.any (fun x => Outcome.isLater x.2) ∧ e = .pending (pendingNames rs) ∧
          u.messagesAt ctx = s.messagesAt ctx ∧
          u.batches = s.batches ∧ u.tasks = s.tasks ∧ u.gathers = s.gathers ∧ u.ready = s.ready := by
  refine ⟨fun v hv => ?_, fun es rs t hstart => ⟨start_names _ ctx es s rs t hstart, ?_⟩⟩
  · unfold validate
    -- the depth is a successor, so that the run reaches its first match
    rw [show depth = 99999 + 1 from rfl]
    simp only [Run.run_bind, Store.run_context, start_notMapping 99999 ctx hv s]
  obtain ⟨hbatches, htasks, hgathers, hready, hsize⟩ := validate_work ctx (.dict es) s
  -- the run after `start`: refused and undone, or settled into the context
  obtain ⟨u, hu⟩ : ∃ u, (abandon depth ctx).run.run t = (.ok (), u) :=
    ⟨_, Prod.ext (abandon_ok depth ctx t) rfl⟩
  -- which codes are settled does not matter: settling them always succeeds
  obtain ⟨codes, hrun⟩ : ∃ codes, (validate ctx (.dict es)).run.run s =
      if (!(rs.filterMap fun x => if Outcome.isLater x.2 then some x.1 else none).isEmpty) = true then
        (.error (.pending (pendingNames rs)), u.withMessages ctx (s.messagesAt ctx))
      else (apply ctx codes).run.run t := by
    unfold validate
    simp only [Run.run_bind, Store.run_context, hstart]
    refine ⟨?codes, ?_⟩
    swap
    split
    · rw [Run.run_bind_of_eq hu]
      rfl
    · rfl
  rw [hrun] at hbatches htasks hgathers hready hsize ⊢
  rcases hp : rs.filterMap (fun x => if Outcome.isLater x.2 then some x.1 else none) with
    _ | ⟨n, ns⟩
  · -- no field is pending: the codes are settled into the context
    rw [hp, if_neg (show ¬(!([] : List String).isEmpty) = true from Bool.false_ne_true), apply_run]
    refine List.all_eq_true.mpr fun x hx => ?_
    have hx' := List.filterMap_eq_nil_iff.mp hp x hx
    cases hlater : Outcome.isLater x.2
    · rfl
    · simp [hlater] at hx'
  · -- a field is pending: the run is refused and undone
    rw [hp, if_pos (show (!(n :: ns).isEmpty) = true from rfl)] at hbatches htasks hgathers
    rw [hp, if_pos (show (!(n :: ns).isEmpty) = true from rfl)] at hready hsize ⊢
    have hlater : rs.any (fun x => Outcome.isLater x.2) = true := by
      obtain ⟨x, hx, hn⟩ := List.mem_filterMap.mp (hp ▸ List.mem_cons_self : n ∈ rs.filterMap _)
      refine List.any_eq_true.mpr ⟨x, hx, ?_⟩
      by_contra h
      simp [h] at hn
    refine ⟨hlater, rfl, ?_, hbatches, htasks, hgathers, hready⟩
    -- the context exists after the run whenever it existed before
    have hsize' : s.contexts.size ≤ u.contexts.size := by
      simpa only [Store.withMessages, Array.size_setIfInBounds] using hsize
    by_cases hctx : ctx < u.contexts.size
    · exact Store.messagesAt_withMessages hctx _
    · have hs : ¬ ctx < s.contexts.size := fun h => hctx (lt_of_lt_of_le h hsize')
      simp only [Store.messagesAt, Store.withMessages, Store.at!, Array.getElem?_setIfInBounds,
        Array.getElem?_eq_none (Nat.le_of_not_lt hctx), Array.getElem?_eq_none (Nat.le_of_not_lt hs)]
      split <;> rfl

end Run

/-- A schema (`0`) with a field `a` whose rule is a coroutine function, so that it always answers
later, and a text field `b` whose rule raises `boom`; its context (`0`) holds `a ↦ x`. -/
def pendingRaisingStore : Store where
  schemas := #[recordSchema [("a", ⟨default, ⟨some "a", 1, false, none, false, true⟩⟩),
    fieldOf "b" 2 false]]
  contexts := #[{ schema := 0, messages := [("a", "x")] }]
  checks := #[.member .string, .custom 0 (.rule (.coroutine (.const (.bool true)))),
    .custom 0 (.rule (.raises (.str "boom")))]

/-- On `{zz: 1}` field `a` answers later and `b` passes: the run is refused, and the context
holds `a ↦ x` again although the run marked `zz`. -/
theorem validate_refused_pending :
    (Run.start Run.depth 0 (.dict [(.str "zz", .int 1)])).run.run pendingRaisingStore =
      (.ok [("a", .later (.settled .none)), ("b", .now .none)],
        ((Run.start Run.depth 0 (.dict [(.str "zz", .int 1)])).run.run pendingRaisingStore).2) ∧
    ((Run.validate 0 (.dict [(.str "zz", .int 1)])).run.run pendingRaisingStore).2.messagesAt 0 =
      pendingRaisingStore.messagesAt 0 := by
  have hstart : (Run.start Run.depth 0 (.dict [(.str "zz", .int 1)])).run.run pendingRaisingStore =
      (.ok [("a", .later (.settled .none)), ("b", .now .none)],
        ((Run.start Run.depth 0 (.dict [(.str "zz", .int 1)])).run.run pendingRaisingStore).2) :=
    Prod.ext (by cbv) rfl
  have hrefused := ((Run.validate_refused 0 pendingRaisingStore).2 _ _ _ hstart).2
  have hrun : (Run.validate 0 (.dict [(.str "zz", .int 1)])).run.run pendingRaisingStore =
      (.error (.pending ["a"]),
        ((Run.validate 0 (.dict [(.str "zz", .int 1)])).run.run pendingRaisingStore).2) :=
    Prod.ext (by cbv) rfl
  rw [hrun] at hrefused
  exact ⟨hstart, hrefused.2.2.1⟩

/-- Field `a` answers with an awaitable, and then field `b` raises: the run ends with `b`'s
fault, not `pending`, and the key `zz` it marked stays in the context's messages. -/
theorem validate_raises_after_pending :
    (∃ k, ((Run.validator Run.depth ⟨some "a", 1, false, none, false, true⟩ .missing (some 0)).run.run
        pendingRaisingStore).1 = .ok (.later k)) ∧
    ((Run.validate 0 (.dict [(.str "b", .str "x"), (.str "zz", .int 1)])).run.run
        pendingRaisingStore).1 = .error (.raised "boom") ∧
    ((Run.validate 0 (.dict [(.str "b", .str "x"), (.str "zz", .int 1)])).run.run
        pendingRaisingStore).2.messagesAt 0 = [("a", "x"), ("zz", "notInSchema")] :=
  ⟨⟨_, by cbv⟩, by cbv, by cbv⟩

end Schematic
