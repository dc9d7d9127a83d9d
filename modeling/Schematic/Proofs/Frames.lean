import Mathlib
import Schematic.Proofs.Agreement
import Schematic.Proofs.Faults
import Schematic.Frame

/-!
# Validating a frame row by row

`Frame.validate` reads the records of a frame's rows, and `Frame.validateRows` validates them one
after the other in a single context, reset before every row, reporting the messages of every row that did not
validate. Although every row reuses the context, and through it the contexts nested-schema checks
own, the messages a row reports are exactly those of the map `Leaves` gives for that row alone:
what a context of the schema leaves after validating it, whatever it held before.

* `Run.validate_spans`: a synchronous validation leaves the map `Leaves` gives, in every window
  around the run, and leaves the store in order for the next one;
* `Frame.report i maps`: the violations of the maps of rows `i`, `i + 1`, …, row after row;
* `Frame.scan_yields`: scanning rows reports, row after row, the entries of each row's map;
* `Frame.validate_reports`: the records of a frame's rows report exactly their violations, in row
  order; with `strict` the run raises exactly when there is one; against a sound and synchronous
  schema it answers unless the data is nested beyond the depth; and a frame whose columns have a
  proper shape validates the records its rows read as.
-/

namespace Schematic

namespace Messages

/-- A map that answers nothing at every path is empty. -/
theorem eq_nil_of_same_nil {m : List (String × String)} (h : Same m []) : m = [] := by
  rcases m with _ | ⟨e, rest⟩
  · rfl
  · have := h e.1
    simp [get?_cons] at this

end Messages

namespace Store

/-- Replacing the messages of a context keeps the schema of every context. -/
@[simp] theorem schema_withMessages (s : Store) (c j : Nat) (m : List (String × String)) :
    (at! (s.withMessages c m).contexts j).schema = (at! s.contexts j).schema := by
  simp only [withMessages, at!_setIfInBounds]
  split_ifs with h
  · rw [h.1]
  · rfl

/-- A context a run started from keeps its schema. -/
theorem Ext.schema_at {s t : Store} (h : s.Ext t) {j : Nat} (hj : j < s.contexts.size) :
    (at! t.contexts j).schema = (at! s.contexts j).schema := by
  obtain ⟨c', hc', hsch⟩ := h.contexts j _ (Array.getElem?_eq_getElem hj)
  rw [at!_of_getElem? hc', hsch, at!_of_getElem? (Array.getElem?_eq_getElem hj)]

/-- A context just made is free: no check owns it. -/
theorem free_push {s : Store} (hs : s.Coherent) (c : Context) :
    Free { s with contexts := s.contexts.push c } s.contexts.size := by
  refine ⟨by simp, fun i sid b hi => absurd (hs.owned_lt hi) (lt_irrefl _)⟩

end Store

theorem Context.reset_run (ctx : Nat) (s : Store) :
    (Context.reset ctx).run.run s = (.ok (), s.withMessages ctx []) := rfl

namespace Run

/-- **What a synchronous validation leaves, in every window around it.** The form of
`validate_leaves` that runs made of several validations compose: the store stays in order for
the next run, and the map is the one `Leaves` gives in every window spanning this one. -/
theorem validate_spans (ctx : Nat) (es : List (Value × Value)) (s : Store) (hs : s.Coherent)
    (hfree : s.Free ctx) :
    Yields (validate ctx (.dict es)) s fun b t => s.Keeps (some ctx) t ∧
      ∃ m, (∀ w, Spans w s t → Leaves w (Store.at! s.contexts ctx).schema es m) ∧
        Messages.Same (t.messagesAt ctx) m ∧ (b = true ↔ m = []) := by
  unfold validate
  refine Yields.bind (Yields.read (Yields.bind (((runAgrees depth).start ctx es s hs hfree).mono
    fun rs t ht => ?_)))
  dsimp only
  split
  · -- some field answered later: the run is refused
    exact Yields.bind fun _ _ _ => Yields.bind fun _ _ _ => Yields.throw _
  rename_i hpending
  obtain ⟨hk, codes, m, rfl, hl, hsame, -⟩ := ht fun x hx => by
    simp only [Bool.not_eq_true', List.isEmpty_eq_false_iff_exists_mem, List.mem_filterMap,
      not_exists, not_and] at hpending
    cases hlater : Outcome.isLater x.2
    · rfl
    · exact absurd (if_pos hlater) (hpending x.1 x hx)
  refine Yields.of_eq (apply_run ctx _ t) fun b hb => ?_
  cases hb
  simp only [List.map_map, Function.comp_def, Prod.mk.eta, List.map_id']
  have hctx : ctx < t.contexts.size := lt_of_lt_of_le hfree.1 hk.steps.ext.contexts_size
  have hk' := Store.Keeps.withMessages hk.coherent hctx ((hk.coherent.keyed_at ctx).settle codes)
  refine ⟨hk.trans hk', m, fun w hw => hl w (hw.left hk'.steps.ext), ?_, ?_⟩
  · rw [Store.messagesAt_withMessages hctx]
    exact hsame
  · rw [hsame.isEmpty_eq, List.isEmpty_iff]


/-- **A synchronous validation against a sound schema** answers, leaving a store grown from the
first, or raises the recursion limit, or raises `pending`, which a synchronous schema never
does. -/
theorem validate_sound (ctx : Nat) (es : List (Value × Value)) (s : Store)
    (hctx : ContextSound s ctx) :
    match (validate ctx (.dict es)).run.run s with
    | (.ok _, t) => s.Grows t
    | (.error e, _) => e = .recursionLimit ∨ ∃ names, e = .pending names ∧ ¬ ContextSync s ctx := by
  obtain ⟨hg, hr⟩ := (runEnds depth).start ctx es s hctx
  unfold validate
  rw [Run.run_bind_of_eq (Store.run_context ctx s), Run.run_bind]
  rcases hstart : (start depth ctx (.dict es)).run.run s with ⟨r, t⟩
  rw [hstart] at hg hr
  rcases hr with hr | ⟨rs, hr, hnow⟩
  · -- out of depth while starting
    cases hr
    exact .inl rfl
  cases hr
  dsimp only
  -- on a synchronous schema no field is pending
  have hnone : ContextSync s ctx →
      (rs.filterMap fun x => if Outcome.isLater x.2 = true then some x.1 else none) = [] :=
    fun hsync => List.filterMap_eq_nil_iff.mpr fun x hx => by simp [hnow hsync x hx]
  generalize (rs.filterMap fun x => if Outcome.isLater x.2 = true then some x.1 else none) =
    pending at hnone
  rcases pending with _ | ⟨n, pending⟩
  · rw [if_neg (by decide), apply_run]
    exact hg.trans (grows_update_context t ctx (fun cx => { cx with messages := _ }) fun _ => rfl)
  · -- a pending field: the run is dropped and refused
    rw [if_pos (show (!(n :: pending).isEmpty) = true from rfl),
      Run.run_bind_of_ok (abandon_ok _ _ _), Run.run_bind_of_ok rfl]
    exact .inr ⟨_, rfl, fun hsync => by cases hnone hsync⟩

end Run

namespace Frame

/-- The violations of the maps of rows `i`, `i + 1`, …: each entry of a row's map under the row's
index, row after row. -/
def report : Nat → List (List (String × String)) → List Violation
  | _, [] => []
  | i, m :: ms => m.map (fun e => ⟨i, e.1, e.2⟩) ++ report (i + 1) ms

@[simp] theorem report_nil (i : Nat) : report i [] = [] := rfl

theorem report_cons (i : Nat) (m : List (String × String)) (ms : List (List (String × String))) :
    report i (m :: ms) = m.map (fun e => ⟨i, e.1, e.2⟩) ++ report (i + 1) ms := rfl

/-- The violations of a row follow those of the rows before it. -/
theorem report_rows_le : ∀ (i : Nat) (ms : List (List (String × String))),
    ∀ v ∈ report i ms, i ≤ v.row
  | _, [], _, h => by cases h
  | i, m :: ms, v, h => by
    rcases List.mem_append.mp h with h | h
    · obtain ⟨e, -, rfl⟩ := List.mem_map.mp h
      exact le_rfl
    · exact Nat.le_of_succ_le (report_rows_le (i + 1) ms v h)

/-- **The report lists the rows in increasing order.** -/
theorem report_sorted : ∀ (i : Nat) (ms : List (List (String × String))),
    (report i ms).Pairwise fun a b => a.row ≤ b.row
  | _, [] => .nil
  | i, m :: ms => by
    rw [report_cons, List.pairwise_append]
    refine ⟨?_, report_sorted (i + 1) ms, fun a ha b hb => ?_⟩
    · exact List.pairwise_map.mpr (List.pairwise_of_forall fun _ _ => le_rfl)
    · obtain ⟨e, -, rfl⟩ := List.mem_map.mp ha
      exact Nat.le_of_succ_le (report_rows_le (i + 1) ms b hb)


/-- **Scanning rows.** From a coherent store whose context `ctx` is free, scanning records that
are mappings appends, row after row, the messages the context holds after each row: the entries,
in some order, of the map `Leaves` gives for that row alone. -/
theorem scan_yields (ctx : Nat) : ∀ (rows : List Value) (i : Nat) (acc : List Violation)
    (s : Store), s.Coherent → s.Free ctx → (∀ r ∈ rows, ∃ es, r = .dict es) →
    Yields (scan ctx rows i acc) s fun vs t => s.Keeps (some ctx) t ∧
      ∃ ms ns, List.Forall₂ (fun r m => ∃ es, r = .dict es ∧
          ∀ w, Spans w s t → Leaves w (Store.at! s.contexts ctx).schema es m) rows ms ∧
        List.Forall₂ List.Perm ns ms ∧ vs = acc ++ report i ns
  | [], i, acc, s, hs, _, _ => Yields.pure ⟨.refl hs, [], [], .nil, .nil, by simp⟩
  | r :: rows, i, acc, s, hs, hfree, hrows => by
    obtain ⟨es, rfl⟩ := hrows _ List.mem_cons_self
    rw [scan]
    -- the reset empties the context's messages and nothing else
    refine Yields.bind (Yields.of_eq (Context.reset_run ctx s) fun _ _ => ?_)
    have hk₀ := Store.Keeps.withMessages hs hfree.1 Messages.Keyed.nil
    refine Yields.bind ((Run.validate_spans ctx es _ hk₀.coherent (hk₀.free hfree)).mono
      fun b t ht => ?_)
    obtain ⟨hk, m, hl, hsame, hb⟩ := ht
    dsimp only
    -- the row's messages are reported when it did not validate; a valid row leaves none
    suffices hnext : Yields (scan ctx rows (i + 1)
        (acc ++ (t.messagesAt ctx).map fun e => ⟨i, e.1, e.2⟩)) t _ by
      cases b with
      | true =>
        have hnil : t.messagesAt ctx = [] := Messages.eq_nil_of_same_nil (hb.mp rfl ▸ hsame)
        rw [hnil, List.map_nil, List.append_nil] at hnext
        exact Yields.bind (Yields.pure hnext)
      | false => exact Yields.bind (Yields.read (Yields.bind (Yields.pure hnext)))
    have hk₁ := hk₀.trans hk
    refine (scan_yields ctx rows (i + 1) _ t hk₁.coherent (hk₁.free hfree)
      fun r hr => hrows r (List.mem_cons_of_mem _ hr)).mono fun vs u hu => ?_
    obtain ⟨hk', ms, ns, hms, hns, rfl⟩ := hu
    -- the later rows run in the same context, of the same schema
    have hschema : (Store.at! t.contexts ctx).schema = (Store.at! s.contexts ctx).schema :=
      (hk₁.steps.ext.schema_at hfree.1)
    have hperm : (t.messagesAt ctx).Perm m :=
      hsame.perm (hk.coherent.keyed_at ctx) (hl _ (Spans.between _ _)).keyed
    refine ⟨hk₁.trans hk', m :: ms, t.messagesAt ctx :: ns, .cons ⟨es, rfl, fun w hw => ?_⟩ ?_,
      .cons hperm hns, by rw [report_cons, List.append_assoc]⟩
    · have := hl w ((hw.left hk'.steps.ext).right hk₀.steps.ext)
      rwa [Store.schema_withMessages] at this
    · refine hms.imp fun r m' ⟨es', hr, hl'⟩ => ⟨es', hr, fun w hw => ?_⟩
      rw [← hschema]
      exact hl' w (hw.right hk₁.steps.ext)


/-- What a list traversal that succeeded answers comes from its items. -/
theorem mem_of_mapM_ok {α β ε : Type} {f : α → Except ε β} :
    ∀ {xs : List α} {ys : List β}, xs.mapM f = .ok ys → ∀ y ∈ ys, ∃ x ∈ xs, f x = .ok y
  | [], ys, h, y, hy => by
    cases h
    cases hy
  | x :: xs, ys, h, y, hy => by
    rw [List.mapM_cons] at h
    rcases hx : f x with e | b
    · rw [hx] at h
      cases h
    · rcases hxs : xs.mapM f with e | bs
      · rw [hx, hxs] at h
        cases h
      · rw [hx, hxs] at h
        cases h
        rcases List.mem_cons.mp hy with rfl | hy
        · exact ⟨x, List.mem_cons_self, hx⟩
        · obtain ⟨x', hx', hfx⟩ := mem_of_mapM_ok hxs y hy
          exact ⟨x', List.mem_cons_of_mem _ hx', hfx⟩

/-- A row reads as a mapping of its columns. -/
theorem row_dict {columns : List Column} {i : Nat} {r : Value} (h : row columns i = .ok r) :
    ∃ es, r = .dict es := by
  unfold row at h
  rcases hm : columns.mapM (fun c => do
      return (Value.str c.name, ← (c.cells.getD i .null).toValue)) with f | es
  · rw [hm] at h
    cases h
  · rw [hm] at h
    cases h
    exact ⟨es, rfl⟩

/-- Every record of a frame is a mapping. -/
theorem rows_dicts {columns : List Column} {records : List Value} (h : rows columns = .ok records) :
    ∀ r ∈ records, ∃ es, r = .dict es := by
  intro r hr
  obtain ⟨i, -, hi⟩ := mem_of_mapM_ok h r hr
  exact row_dict hi


/-- **The violations of a frame's records.** From a coherent store, validating records that are
mappings reports, row after row, the entries of each record's map, which is the one `Leaves`
gives for the record alone; with `strict` it reports none. -/
theorem validateRows_yields {s : Store} (hs : s.Coherent) (sid : Nat) {records : List Value}
    (hrecords : ∀ r ∈ records, ∃ es, r = .dict es) (strict : Bool) :
    Yields (validateRows sid records strict) s fun vs t =>
      ∃ ms ns, List.Forall₂ (fun r m => ∃ es, r = .dict es ∧ Leaves (Store.Between s t) sid es m)
          records ms ∧
        List.Forall₂ List.Perm ns ms ∧ vs = report 0 ns ∧ (strict = true → vs = []) := by
  unfold validateRows
  -- the context the rows run in is new, so no check owns it
  refine Yields.bind (Yields.of_eq (Store.run_addContext _ s) fun ctx hctx => ?_)
  cases hctx
  have hs₁ := hs.push_context (c := { schema := sid }) Messages.Keyed.nil
  have hext : s.Ext { s with contexts := s.contexts.push { schema := sid } } :=
    (Store.adds_push_context s _).ext
  refine Yields.bind ((scan_yields _ records 0 [] _ hs₁ (Store.free_push hs _)
    hrecords).mono fun vs t ht => ?_)
  obtain ⟨hk, ms, ns, hms, hns, rfl⟩ := ht
  -- each row's map is the one `Leaves` gives in the window of the whole frame
  have hms' : List.Forall₂ (fun r m => ∃ es, r = .dict es ∧ Leaves (Store.Between s t) sid es m)
      records ms := by
    refine hms.imp fun r m ⟨es, hr, hl⟩ => ⟨es, hr, ?_⟩
    have := hl _ ((Spans.between s t).right hext)
    rwa [Store.at!_push_size] at this
  -- with `strict`, a frame that reports anything is refused
  split
  · exact Yields.bind (Yields.read (Yields.throw _))
  · rename_i hstrict
    refine Yields.pure ⟨ms, ns, hms', hns, by simp, fun h => ?_⟩
    subst h
    simpa using hstrict


/-- **A strict frame fails exactly when it reports something**: it runs as the frame that is not
strict, and refuses its violations, counting them and their rows, when there are any. -/
theorem validateRows_strict (sid : Nat) (records : List Value) (s : Store) :
    (validateRows sid records true).run.run s =
      match (validateRows sid records false).run.run s with
      | (.ok vs, t) => if vs.isEmpty then (.ok vs, t)
        else (.error (.frameViolations (Store.schemaNameIn t sid) vs.length (rowsOf vs)), t)
      | (.error e, t) => (.error e, t) := by
  unfold validateRows
  simp only [Run.run_bind, Context.create, Store.run_addContext]
  -- both runs scan the rows alike; only the end differs
  rcases (scan s.contexts.size records 0 []).run.run
    { s with contexts := s.contexts.push { schema := sid } } with ⟨_ | vs, t⟩
  · rfl
  · rcases vs with _ | ⟨v, vs⟩ <;> rfl


/-- Against a sound schema, scanning mapping rows answers, or raises the recursion limit, or
raises `pending`, which a synchronous schema never does: not in the store the scan started
from, nor in any store it grew from. -/
theorem scan_sound (ctx : Nat) {s₀ : Store} : ∀ (rows : List Value) (i : Nat)
    (acc : List Violation) (s : Store), s₀.Grows s → ContextSound s ctx →
    (∀ r ∈ rows, ∃ es, r = .dict es) →
    match (scan ctx rows i acc).run.run s with
    | (.ok _, _) => True
    | (.error e, _) => e = .recursionLimit ∨ ∃ names, e = .pending names ∧ ¬ ContextSync s₀ ctx
  | [], _, _, _, _, _, _ => trivial
  | r :: rows, i, acc, s, h₀, hctx, hrows => by
    obtain ⟨es, rfl⟩ := hrows _ List.mem_cons_self
    rw [scan, Run.run_bind_of_eq (Context.reset_run ctx s), Run.run_bind]
    -- the reset only empties the context's messages, which soundness does not look at
    have hg₀ : s.Grows (s.withMessages ctx []) :=
      grows_update_context s ctx (fun cx => { cx with messages := [] }) fun _ => rfl
    have hrow := Run.validate_sound ctx es _ (hctx.mono hg₀)
    rcases hv : (Run.validate ctx (.dict es)).run.run (s.withMessages ctx []) with ⟨_ | b, t⟩
    · rw [hv] at hrow
      rcases hrow with hlimit | ⟨names, hpending, hnot⟩
      · exact .inl hlimit
      · exact .inr ⟨names, hpending, fun hsync => hnot (hsync.mono (h₀.trans hg₀))⟩
    rw [hv] at hrow
    dsimp only
    -- the later rows run from the store this row left, grown from the first
    have hg : s.Grows t := hg₀.trans hrow
    have hnext := @scan_sound ctx s₀ rows (i + 1)
    cases b with
    | true => exact hnext acc t (h₀.trans hg) (hctx.mono hg) fun r hr => hrows r (List.mem_cons_of_mem _ hr)
    | false =>
      exact hnext _ t (h₀.trans hg) (hctx.mono hg) fun r hr => hrows r (List.mem_cons_of_mem _ hr)

/-- Against a sound schema, validating mapping records answers, or raises the recursion limit,
or raises `pending`, which a synchronous schema never does. -/
theorem validateRows_sound {s : Store} (sid : Nat) (hsch : SchemaSound s sid)
    {records : List Value} (hrecords : ∀ r ∈ records, ∃ es, r = .dict es) :
    match (validateRows sid records false).run.run s with
    | (.ok _, _) => True
    | (.error e, _) => e = .recursionLimit ∨ ∃ names, e = .pending names ∧ ¬ SchemaSync s sid := by
  unfold validateRows
  simp only [Run.run_bind, Context.create, Store.run_addContext]
  have hg := Store.grows_push_context s { schema := sid }
  have hscan := scan_sound s.contexts.size records 0 [] _ (.refl _)
    ⟨{ schema := sid }, by simp, hsch.mono hg⟩ hrecords
  generalize (scan s.contexts.size records 0 []).run.run
    { s with contexts := s.contexts.push { schema := sid } } = r at hscan ⊢
  rcases r with ⟨_ | vs, t⟩
  · rcases hscan with hlimit | ⟨names, hpending, hnot⟩
    · exact .inl hlimit
    · -- the fresh context's schema is `sid`, synchronous if `sid` was
      exact .inr ⟨names, hpending, fun hsync => hnot ⟨{ schema := sid }, by simp, hsync.mono hg⟩⟩
  · trivial

/-- A frame whose columns have a proper shape validates the records its rows read as. -/
theorem validate_eq_validateRows {sid : Nat} {columns : List Column} {records : List Value}
    (hshape : checkShape columns = .ok ()) (hrows : rows columns = .ok records) (strict : Bool) :
    validate sid columns strict = validateRows sid records strict := by
  unfold validate
  rw [hshape, hrows]
  rfl


/-- **Validating the records of a frame's rows.** From a coherent store, records that are
mappings, as the rows of a frame read:

* report, when the run answers, exactly the violations of the records' maps, rows in increasing
  order: row `i`'s entries, in some order, are those of the map `Leaves` gives for record `i`
  alone, so that reusing one context for every row changes nothing;
* with `strict`, run alike and raise exactly when that report is not empty;
* against a sound schema, answer or run out of depth, unless the schema is not synchronous and
  some field answers later;
* are what a frame validates, when its columns have a proper shape and its rows read as them. -/
theorem validate_reports {s : Store} (hs : s.Coherent) (sid : Nat) {records : List Value}
    (hrecords : ∀ r ∈ records, ∃ es, r = .dict es) :
    (∀ vs t, (validateRows sid records false).run.run s = (.ok vs, t) →
      ∃ ms ns, List.Forall₂ (fun r m => ∃ es, r = .dict es ∧ Leaves (Store.Between s t) sid es m)
          records ms ∧
        List.Forall₂ List.Perm ns ms ∧ vs = report 0 ns ∧ vs.Pairwise fun a b => a.row ≤ b.row) ∧
    (validateRows sid records true).run.run s =
      (match (validateRows sid records false).run.run s with
      | (.ok vs, t) => if vs.isEmpty then (.ok vs, t)
        else (.error (.frameViolations (Store.schemaNameIn t sid) vs.length (rowsOf vs)), t)
      | (.error e, t) => (.error e, t)) ∧
    (SchemaSound s sid →
      ((∃ vs t, (validateRows sid records false).run.run s = (.ok vs, t)) ∨
        ((validateRows sid records false).run.run s).1 = .error .recursionLimit) ∨
      ¬ SchemaSync s sid ∧
        ∃ names, ((validateRows sid records false).run.run s).1 = .error (.pending names)) ∧
    (∀ columns strict, checkShape columns = .ok () → rows columns = .ok records →
      validate sid columns strict = validateRows sid records strict) := by
  refine ⟨fun vs t h => ?_, validateRows_strict sid records s, fun hsch => ?_,
    fun columns strict hshape hrows => validate_eq_validateRows hshape hrows strict⟩
  · obtain ⟨ms, ns, hms, hns, rfl, -⟩ := validateRows_yields hs sid hrecords false vs t h
    exact ⟨ms, ns, hms, hns, rfl, report_sorted 0 ns⟩
  · have hsound := validateRows_sound sid hsch hrecords
    rcases h : (validateRows sid records false).run.run s with ⟨_ | vs, t⟩
    · rw [h] at hsound
      rcases hsound with rfl | ⟨names, rfl, hnot⟩
      · exact .inl (.inr rfl)
      · exact .inr ⟨hnot, names, rfl⟩
    · exact .inl (.inl ⟨vs, t, rfl⟩)

end Frame


theorem textStore_coherent (name : String) : (textStore name).Coherent where
  owned i sid owned busy hi := by
    rcases i with _ | i <;> simp [textStore] at hi
  unique i j sid sid' owned busy busy' hi hj := by
    rcases i with _ | i <;> simp [textStore] at hi
  keyed j cx hj := by
    rcases j with _ | j <;> simp [textStore] at hj
    subst hj
    exact Messages.Keyed.nil
  named sid sch hsch := by
    rcases sid with _ | sid <;> simp [textStore] at hsch
    subst hsch
    simp [recordSchema, fieldOf]

namespace Frame

/-- Two rows: a text column `name` the schema has, and a column `zz` it does not. -/
def namedColumns : List Column :=
  [⟨"name", .string, [.text "a", .integer 3]⟩, ⟨"zz", .int64, [.null, .integer 1]⟩]

/-- The records of `namedColumns`. -/
def namedRecords : List Value :=
  [.dict [(.str "name", .str "a"), (.str "zz", .none)], .dict [(.str "name", .int 3), (.str "zz", .int 1)]]

theorem validate_reports_named :
    (textStore "name").Coherent ∧ (∀ r ∈ namedRecords, ∃ es, r = .dict es) ∧
    ((∀ vs t, (validateRows 0 namedRecords false).run.run (textStore "name") = (.ok vs, t) →
      ∃ ms ns, List.Forall₂ (fun r m => ∃ es, r = .dict es ∧
          Leaves (Store.Between (textStore "name") t) 0 es m) namedRecords ms ∧
        List.Forall₂ List.Perm ns ms ∧ vs = report 0 ns ∧ vs.Pairwise fun a b => a.row ≤ b.row) ∧
    (validateRows 0 namedRecords true).run.run (textStore "name") =
      (match (validateRows 0 namedRecords false).run.run (textStore "name") with
      | (.ok vs, t) => if vs.isEmpty then (.ok vs, t)
        else (.error (.frameViolations (Store.schemaNameIn t 0) vs.length (rowsOf vs)), t)
      | (.error e, t) => (.error e, t)) ∧
    (SchemaSound (textStore "name") 0 →
      ((∃ vs t, (validateRows 0 namedRecords false).run.run (textStore "name") = (.ok vs, t)) ∨
        ((validateRows 0 namedRecords false).run.run (textStore "name")).1 =
          .error .recursionLimit) ∨
      ¬ SchemaSync (textStore "name") 0 ∧
        ∃ names, ((validateRows 0 namedRecords false).run.run (textStore "name")).1 =
          .error (.pending names)) ∧
    (∀ columns strict, checkShape columns = .ok () → rows columns = .ok namedRecords →
      validate 0 columns strict = validateRows 0 namedRecords strict)) :=
  ⟨textStore_coherent "name", rows_dicts (rfl : rows namedColumns = .ok namedRecords),
    validate_reports (textStore_coherent "name") 0
      (rows_dicts (rfl : rows namedColumns = .ok namedRecords))⟩

end Frame

end Schematic
