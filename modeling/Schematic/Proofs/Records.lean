import Mathlib
import Schematic.Proofs.Structure

/-!
# Validating a record

`Batch.create` validates a record against a schema and gives a batch result, which `Batch.wait`
settles. What the two do is read here whole:

* a record that is neither none nor a mapping is refused with a `StructureError`, and no other
  record is (`Batch.create_structureError_iff`); none is read as the empty mapping
  (`Batch.create_none`);
* a record holding a key that names no field is rejected at once: the result is done, lists each
  such key in the record's order with its value and `keyNotInSchema`, and the store gains the
  result and nothing else, so no validator has run (`Batch.create_rejected`);
* otherwise every field's validator runs once, in field order, on the value under its name
  (`Batch.create_known`), and the result is done exactly when none of them answered later
  (`Batch.pendingOf_eq_nil_iff`);
* waiting for a result that is done answers its errors at once and runs nothing
  (`Batch.wait_done`); waiting for one that is not writes each pending field's code in its place
  and is done, keeping the errors settled at once (`Batch.errors_sublist_record`).

`Batch.Settles` names what a result gives its readers, and `Batch.Settles.of_added` shows that
every result of a record whose keys all name fields has it. **`Batch.validate_settles`** puts
these together.
-/

namespace Schematic

/-- A list run through a computation answers, when it answers, a list of answers that each
satisfy what every answer of the computation does. -/
theorem Yields.mapM_all {α γ : Type} {f : γ → Run α} {R : α → Prop}
    (hf : ∀ x s, Yields (f x) s fun a _ => R a) :
    ∀ (xs : List γ) (s : Store), Yields (xs.mapM f) s fun as _ => ∀ a ∈ as, R a := by
  intro xs
  induction xs with
  | nil => exact fun _ => Yields.pure fun _ h => absurd h List.not_mem_nil
  | cons x xs ih =>
    intro s
    rw [List.mapM_cons]
    refine Yields.bind ((hf x s).mono fun a t ha => ?_)
    refine Yields.bind ((ih t).mono fun as u has => Yields.pure ?_)
    intro b hb
    rcases List.mem_cons.mp hb with rfl | hb
    · exact ha
    · exact has b hb

namespace Batch

/-- None is read as the empty mapping. -/
theorem create_none (sid : Nat) : create sid .none = create sid (.dict []) := by
  unfold create
  rfl

/-- **A record holding a key that names no field is rejected at once**: the result lists each
such key, in the record's order, with its value and `keyNotInSchema`, and is done; the store
gains it and nothing else. -/
theorem create_rejected {sid : Nat} {es : List (Value × Value)} {s : Store}
    (hk : ∃ e ∈ es, Run.namesField (Store.fieldNamesIn s sid) e.1 = false) :
    (create sid (.dict es)).run.run s = (.ok s.batches.size, { s with
      batches := s.batches.push
        { outcomes := (es.filter fun e => !Run.namesField (Store.fieldNamesIn s sid) e.1).map
            fun e => (e.1.plain (Store.namingIn s), e.2, .now (.str "keyNotInSchema"))
          rejected := true
          done := true } }) := by
  obtain ⟨e, he, hn⟩ := hk
  have hne : (!(es.filter fun x =>
      !Run.namesField ((Store.at! s.schemas sid).fields.map (·.1)) x.1).isEmpty) = true := by
    simp only [Bool.not_eq_true', List.isEmpty_eq_false_iff_exists_mem, List.mem_filter]
    exact ⟨e, he, by simpa [Store.fieldNamesIn] using hn⟩
  unfold create
  rw [Run.run_bind_of_eq (Run.run_pure _ _), Run.run_bind_of_eq (Store.run_schema _ _)]
  dsimp only
  rw [if_pos hne, Run.run_bind_of_eq (Run.mapM_run _
    (fun x => (x.1.plain (Store.namingIn s), x.2, Outcome.now (.str "keyNotInSchema"))) s ?_ _)]
  · rfl
  · exact fun _ => rfl

/-- The errors of a rejected record: each key that names no field, with `keyNotInSchema`. -/
theorem errors_rejected (n : Naming) (unknown : List (Value × Value)) :
    errors { outcomes := unknown.map fun e => (e.1.plain n, e.2, .now (.str "keyNotInSchema"))
             rejected := true, done := true } =
      unknown.map fun e => ⟨e.1.plain n, "keyNotInSchema", e.2⟩ := by
  simp [errors, List.filterMap_map, Run.codeText]

/-- Every outcome of a field's run is of the kind the check runner makes. -/
theorem fieldOutcome_plain (es : List (Value × Value)) (x : String × Field) (s : Store) :
    Yields (fieldOutcome es x) s fun o _ => o.2.2.Plain := by
  unfold fieldOutcome
  exact Yields.bind (((Run.plain _).validator _ _ _ s).mono fun _ _ ho => Yields.pure ho)

/-- A record whose every key names a field, once validated, has added one result: each field's
name, value and outcome, in field order, not rejected, done when no outcome is pending. -/
theorem create_known_ok {sid : Nat} {es : List (Value × Value)} {s t : Store} {id : Nat}
    (hk : ∀ e ∈ es, Run.namesField (Store.fieldNamesIn s sid) e.1 = true)
    (h : (create sid (.dict es)).run.run s = (.ok id, t)) :
    ∃ outs u, ((Store.at! s.schemas sid).fields.mapM (fieldOutcome es)).run.run s = (.ok outs, u) ∧
      (∀ x ∈ outs, x.2.2.Plain) ∧ id = u.batches.size ∧
      t = { u with
        batches := u.batches.push
          { outcomes := outs
            rejected := false
            done := !outs.any fun x => Run.Outcome.isLater x.2.2 } } := by
  rw [create_known hk] at h
  obtain ⟨outs, u, hmap, hadd⟩ := Run.ok_of_bind h
  cases hadd
  exact ⟨outs, u, hmap, Yields.mapM_all (fieldOutcome_plain es) _ s outs u hmap, rfl, rfl⟩

/-- A list of outcomes has no pending one exactly when it has no pending coroutine. -/
theorem pendingOf_eq_nil_iff {α : Type} (xs : List (α × Outcome)) :
    Loop.pendingOf xs = [] ↔ (xs.any fun x => Run.Outcome.isLater x.2) = false := by
  simp only [Loop.pendingOf, List.filterMap_eq_nil_iff, List.any_eq_false]
  refine forall_congr' fun x => forall_congr' fun _ => ?_
  rcases x with ⟨a, o | c⟩ <;> simp [Run.Outcome.isLater]

/-- **Writing codes in place of pending outcomes keeps the errors settled before**, in their
order. -/
theorem errors_sublist_record (bt : Batch) (codes : List Value) :
    (errors bt).Sublist (errors { bt with outcomes := Loop.record bt.outcomes codes }) := by
  obtain ⟨os, rejected, done, task⟩ := bt
  simp only [errors]
  induction os generalizing codes with
  | nil => simp [Loop.record]
  | cons o os ih =>
    obtain ⟨name, v, o | c⟩ := o
    · simp only [Loop.record, List.filterMap_cons]
      split
      · exact ih codes
      · exact (ih codes).cons_cons _
    · cases codes with
      | nil =>
        simp only [Loop.record, List.filterMap_cons]
        exact ih []
      | cons code codes =>
        simp only [Loop.record, List.filterMap_cons]
        split
        · exact ih codes
        · exact (ih codes).cons _

/-- What a batch result `bt`, held at `id` in store `t`, gives its readers. It is done exactly
when nothing is pending, and not valid while something is. Waiting for it when it is done
answers its errors at once and leaves the store as it was, but for the loop's one finished
task. Waiting for it when it is not writes one code per pending outcome in its place, keeps the
errors settled at once, makes it done and valid exactly when it has no errors, and waiting again
answers the same errors and runs nothing. -/
structure Settles (id : Nat) (t : Store) (bt : Batch) : Prop where
  done_iff : bt.done = true ↔ bt.pending = []
  pending_invalid : bt.done = false → bt.valid = false
  answers_at_once : bt.done = true →
    (wait id).run.run t = (.ok (errors bt), { t with
      tasks := t.tasks.push { frames := [], result := some (.ok .none), callbacks := [.stop] }
      ready := [] }) ∧
    (bt.valid = true ↔ errors bt = [])
  settles_on_wait : bt.done = false → Yields (wait id) t fun errs u =>
    ∃ codes : List Value, codes.length = bt.pending.length ∧
      Store.at! u.batches id = { bt with
        outcomes := Loop.record bt.outcomes codes
        done := true
        task := some (t.tasks.size + 1) } ∧
      errs = errors (Store.at! u.batches id) ∧ (errors bt).Sublist errs ∧
      ((Store.at! u.batches id).valid = true ↔ errs = []) ∧
      (wait id).run.run u = (.ok errs, { u with
        tasks := u.tasks.push { frames := [], result := some (.ok .none), callbacks := [.stop] }
        ready := [] })

/-- A result added with outcomes of the runner's kind, done when none is pending, settles. -/
theorem Settles.of_added {t : Store} {id : Nat} {bt : Batch} (hid : id < t.batches.size)
    (hbt : Store.at! t.batches id = bt) (hplain : ∀ c ∈ bt.pending, c.Plain)
    (hdone : bt.done = !bt.outcomes.any fun x => Run.Outcome.isLater x.2.2)
    (htask : bt.task = none) : Settles id t bt where
  done_iff := by
    rw [hdone, pending, pendingOf_eq_nil_iff, List.any_map]
    simp [Function.comp_def]
  pending_invalid h := by simp [valid, h]
  answers_at_once h := by
    refine ⟨hbt ▸ wait_done (hbt ▸ h), ?_⟩
    simp [valid, h]
  settles_on_wait h := by
    refine (wait_settles hid hbt h htask hplain).mono fun errs u hu => ?_
    obtain ⟨codes, hlen, hu, herrs⟩ := hu
    have hudone : (Store.at! u.batches id).done = true := by rw [hu]
    refine ⟨codes, hlen, hu, herrs, ?_, ?_, ?_⟩
    · rw [herrs, hu]
      exact errors_sublist_record bt codes
    · simp [valid, hudone, herrs]
    · rw [wait_done hudone, ← herrs]

/-- **Validating a record.** Only a record that is neither none nor a mapping is refused with a
`StructureError`. Read the record as its entries `es` (none has none). If some key names no
field, the result is at once done, rejected and invalid, its errors are each such key in the
record's order with its value and `keyNotInSchema`, and the store gains the result and nothing
else, so no validator has run. Otherwise every field's validator runs once, in field order, on
the value under its name, and the result added settles as `Settles` says. -/
theorem validate_settles (sid : Nat) (d : Value) (s : Store) :
    ((∃ f t, (create sid d).run.run s = (.error f, t) ∧ f.className = "StructureError") ↔
      d ≠ .none ∧ ∀ es, d ≠ .dict es) ∧
    ∀ es, d = .none ∧ es = [] ∨ d = .dict es →
      ((∃ e ∈ es, Run.namesField (Store.fieldNamesIn s sid) e.1 = false) →
        ∃ bt : Batch, (create sid d).run.run s =
            (.ok s.batches.size, { s with batches := s.batches.push bt }) ∧
          bt.rejected = true ∧ bt.done = true ∧ bt.valid = false ∧
          errors bt = (es.filter fun e => !Run.namesField (Store.fieldNamesIn s sid) e.1).map
            fun e => ⟨e.1.plain (Store.namingIn s), "keyNotInSchema", e.2⟩) ∧
      ((∀ e ∈ es, Run.namesField (Store.fieldNamesIn s sid) e.1 = true) →
        (create sid d).run.run s = (do
          let outcomes ← (Store.at! s.schemas sid).fields.mapM (fieldOutcome es)
          Store.addBatch
            { outcomes := outcomes
              rejected := false
              done := !outcomes.any fun x => Run.Outcome.isLater x.2.2 }).run.run s ∧
        ∀ id t, (create sid d).run.run s = (.ok id, t) → Settles id t (Store.at! t.batches id)) := by
  refine ⟨create_structureError_iff sid d s, fun es hd => ?_⟩
  have hcreate : create sid d = create sid (.dict es) := by
    rcases hd with ⟨rfl, rfl⟩ | rfl
    · exact create_none sid
    · rfl
  rw [hcreate]
  refine ⟨fun hk => ?_, fun hk => ⟨create_known hk, fun id t h => ?_⟩⟩
  · -- the unknown keys are not none of them, so the errors are not empty
    have hne : (es.filter fun e => !Run.namesField (Store.fieldNamesIn s sid) e.1) ≠ [] := by
      obtain ⟨e, he, hn⟩ := hk
      exact List.ne_nil_of_mem (List.mem_filter.mpr ⟨he, by simp [hn]⟩)
    refine ⟨_, create_rejected hk, rfl, rfl, ?_, errors_rejected _ _⟩
    simp [valid, errors_rejected, hne]
  · obtain ⟨outs, u, -, hplain, rfl, rfl⟩ := create_known_ok hk h
    rw [Store.at!_push_size]
    refine Settles.of_added (by simp) (Store.at!_push_size _ _) ?_ rfl rfl
    exact Loop.pendingOf_plain fun x hx => by
      obtain ⟨y, hy, rfl⟩ := List.mem_map.mp hx
      exact hplain y hy

end Batch

end Schematic
