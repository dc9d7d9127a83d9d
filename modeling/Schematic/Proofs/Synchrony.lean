import Mathlib
import Schematic.Proofs.Soundness

/-!
# Synchronous schemas

A field answers later only because of a custom rule: one that is a coroutine function, whose
field then always answers later, or one that returns an awaitable. A schema is *synchronous*
when no rule of either kind is anywhere in it: in its fields, in the candidates of its unions,
in the schemas nested in it, and in whatever its lazy tags resolve to. No validator of a
synchronous schema is then always pending (`alwaysPending` is set exactly for a coroutine
function's field).

Synchrony is hereditary through unions, arrays, nested schemas and lazy tags, which may refer
back to the schema itself; it is defined level by level, as soundness is (`NodeSyncAt n`,
`SchemaSyncAt n`, `TagSyncAt n`), and holds when it holds at every level.

The main facts are, as for soundness, that synchrony survives the growth of the store
(`NodeSync.mono`) and that a check built from a synchronous tag is synchronous
(`Store.Built.sync`). What follows from them for a run, that it answers at once, is proved with
the runner's termination (`RunEnds`).
-/

namespace Schematic

/-- A custom rule that answers at once whenever it answers: neither a coroutine function nor a
rule that returns an awaitable. -/
def RuleNow (rule : Value) : Prop :=
  ∀ inner, rule ≠ .rule (.coroutine inner) ∧ rule ≠ .rule (.awaitable inner)

/-- A rule that answers at once answers now. -/
theorem Rule.call_now {r : Rule} (hr : RuleNow (.rule r)) (v : Value) {s t : Store}
    {o : Outcome} (h : (Rule.call r v).run.run s = (.ok o, t)) : Run.Outcome.isLater o = false := by
  cases r with
  | coroutine inner => exact absurd rfl (hr inner).1
  | awaitable inner => exact absurd rfl (hr inner).2
  | raises m =>
    obtain ⟨_, _, -, h⟩ := Run.ok_of_bind h
    cases h
  | const x =>
    cases h
    rfl
  | equals x o' =>
    cases h
    rfl
  | minLength n o' =>
    obtain ⟨_, _, -, h⟩ := Run.ok_of_bind h
    obtain ⟨_, _, -, h⟩ := Run.ok_of_bind h
    cases h
    rfl
  | member vs o' =>
    obtain ⟨_, _, -, h⟩ := Run.ok_of_bind h
    cases h
    rfl
  | greaterThan n o' =>
    obtain ⟨_, _, -, h⟩ := Run.ok_of_bind h
    cases h
    rfl
  | startsWith p o' =>
    obtain ⟨_, _, -, h⟩ := Run.ok_of_bind h
    cases h
    rfl

/-- A callable that answers at once answers now: only a rule can answer later. -/
theorem Rule.callValue_now {f : Value} (hf : RuleNow f) (v : Value) {s : Store} {o : Outcome}
    (h : ((Rule.callValue f v).run.run s).1 = .ok o) : Run.Outcome.isLater o = false := by
  rcases hrun : (Rule.callValue f v).run.run s with ⟨r, t⟩
  rw [hrun] at h
  cases h
  unfold Rule.callValue at hrun
  split at hrun
  · exact Rule.call_now hf v hrun
  · -- a marker answers what calling it gives, now
    obtain ⟨_, _, -, hrun⟩ := Run.ok_of_bind hrun
    obtain ⟨_, _, -, hrun⟩ := Run.ok_of_bind hrun
    cases hrun
    rfl
  · obtain ⟨_, _, -, hrun⟩ := Run.ok_of_bind hrun
    cases hrun
    rfl
  · cases hrun
    rfl

/-! ### Synchrony, level by level -/

mutual

/-- The check at handle `node` is synchronous to depth `n`. -/
def NodeSyncAt : Nat → Store → Nat → Prop
  | 0, _, _ => True
  | n + 1, s, node =>
    match s.checks[node]? with
    | none => False
    | some (.member _) | some .pass | some (.bounded _ _ _) => True
    | some (.union cs) => ∀ x ∈ cs, NodeSyncAt n s x.2
    | some (.array e _ _) => NodeSyncAt n s e
    | some (.nested sid _ _) => SchemaSyncAt n s sid
    | some (.lazy lid _ spec _ built) =>
      TagSyncAt n s spec (.lazy lid) ∧ ∀ b, built = some b → NodeSyncAt n s b
    | some (.custom inner r) => NodeSyncAt n s inner ∧ RuleNow r

/-- The schema `sid` is synchronous to depth `n`: no field's validator is always pending, and
each field's check is synchronous. -/
def SchemaSyncAt : Nat → Store → Nat → Prop
  | 0, _, _ => True
  | n + 1, s, sid => ∃ sch, s.schemas[sid]? = some sch ∧ ∀ f ∈ sch.fields,
      f.2.validator.alwaysPending = false ∧ NodeSyncAt n s f.2.validator.check

/-- The tag `tag` declared with `spec` is synchronous to depth `n`: its candidates' rules answer
at once, and a lazy tag resolves, from every store grown from this one, to a synchronous tag. -/
def TagSyncAt : Nat → Store → Spec → Tag → Prop
  | 0, _, _, _ => True
  | _ + 1, _, _, .primitive _ => True
  | _ + 1, _, _, .any => True
  | n + 1, s, _, .anyOf id => ∃ u, s.unions[id]? = some u ∧ ∀ c ∈ u.candidates,
      TagSyncAt n s c c.type ∧ ∀ r, c.custom = some r → RuleNow r
  | n + 1, s, spec, .arrayOf id => ∃ a, s.arrays[id]? = some a ∧ TagSyncAt n s spec a.element
  | n + 1, s, _, .schema sid => SchemaSyncAt n s sid
  | n + 1, s, spec, .lazy lid => ∀ t, s.Grows t → ∀ tag u,
      (Run.resolveLazy lid).run.run t = (.ok tag, u) → TagSyncAt n u spec tag

end

/-- The check at `node` is synchronous at every depth. -/
def NodeSync (s : Store) (node : Nat) : Prop := ∀ n, NodeSyncAt n s node

/-- The schema `sid` is synchronous at every depth. -/
def SchemaSync (s : Store) (sid : Nat) : Prop := ∀ n, SchemaSyncAt n s sid

/-- The tag `tag` declared with `spec` is synchronous at every depth. -/
def TagSync (s : Store) (spec : Spec) (tag : Tag) : Prop := ∀ n, TagSyncAt n s spec tag

/-! ### Synchrony, one level down -/

/-- What synchrony asks of a check, in terms of the synchrony of what it refers to. -/
def CheckSync (s : Store) : Check → Prop
  | .member _ | .pass | .bounded _ _ _ => True
  | .union cs => ∀ x ∈ cs, NodeSync s x.2
  | .array e _ _ => NodeSync s e
  | .nested sid _ _ => SchemaSync s sid
  | .lazy lid _ spec _ built => TagSync s spec (.lazy lid) ∧ ∀ b, built = some b → NodeSync s b
  | .custom inner r => NodeSync s inner ∧ RuleNow r

theorem nodeSync_iff {s : Store} {node : Nat} {c : Check} (hc : s.checks[node]? = some c) :
    NodeSync s node ↔ CheckSync s c := by
  constructor
  · intro h
    have hn : ∀ n, NodeSyncAt (n + 1) s node := fun n => h (n + 1)
    simp only [NodeSyncAt, hc] at hn
    cases c with
    | member => trivial
    | pass => trivial
    | bounded => trivial
    | union cs => exact fun x hx n => hn n x hx
    | array e lo hi => exact fun n => hn n
    | nested sid owned busy => exact fun n => hn n
    | lazy lid field spec owner built =>
      exact ⟨fun n => (hn n).1, fun b hb n => (hn n).2 b hb⟩
    | custom inner r => exact ⟨fun n => (hn n).1, (hn 0).2⟩
  · intro h n
    cases n with
    | zero => trivial
    | succ n =>
      simp only [NodeSyncAt, hc]
      cases c with
      | member => trivial
      | pass => trivial
      | bounded => trivial
      | union cs => exact fun x hx => h x hx n
      | array e lo hi => exact h n
      | nested sid owned busy => exact h n
      | lazy lid field spec owner built => exact ⟨h.1 n, fun b hb => h.2 b hb n⟩
      | custom inner r => exact ⟨h.1 n, h.2⟩

/-- A synchronous check exists. -/
theorem NodeSync.exists {s : Store} {node : Nat} (h : NodeSync s node) :
    ∃ c, s.checks[node]? = some c ∧ CheckSync s c := by
  have h1 := h 1
  simp only [NodeSyncAt] at h1
  split at h1
  · exact h1.elim
  all_goals exact ⟨_, ‹_›, (nodeSync_iff ‹_›).mp h⟩

theorem schemaSync_iff {s : Store} {sid : Nat} :
    SchemaSync s sid ↔ ∃ sch, s.schemas[sid]? = some sch ∧ ∀ f ∈ sch.fields,
      f.2.validator.alwaysPending = false ∧ NodeSync s f.2.validator.check := by
  constructor
  · intro h
    obtain ⟨sch, hsch, -⟩ := h 1
    refine ⟨sch, hsch, fun f hf => ⟨?_, fun n => ?_⟩⟩
    · obtain ⟨sch', hsch', hfs⟩ := h 1
      rw [hsch] at hsch'
      cases hsch'
      exact (hfs f hf).1
    · obtain ⟨sch', hsch', hfs⟩ := h (n + 1)
      rw [hsch] at hsch'
      cases hsch'
      exact (hfs f hf).2
  · rintro ⟨sch, hsch, hfs⟩ n
    cases n with
    | zero => trivial
    | succ n => exact ⟨sch, hsch, fun f hf => ⟨(hfs f hf).1, (hfs f hf).2 n⟩⟩

theorem tagSync_schema {s : Store} {spec : Spec} {sid : Nat} :
    TagSync s spec (.schema sid) ↔ SchemaSync s sid :=
  ⟨fun h n => h (n + 1), fun h n => by cases n with | zero => trivial | succ n => exact h n⟩

theorem tagSync_anyOf {s : Store} {spec : Spec} {id : Nat} :
    TagSync s spec (.anyOf id) ↔ ∃ u, s.unions[id]? = some u ∧ ∀ c ∈ u.candidates,
      TagSync s c c.type ∧ ∀ r, c.custom = some r → RuleNow r := by
  constructor
  · intro h
    obtain ⟨u, hu, -⟩ := h 1
    -- the union at `id` is the same at every level
    have hlevel : ∀ n, ∀ c ∈ u.candidates,
        TagSyncAt n s c c.type ∧ ∀ r, c.custom = some r → RuleNow r := by
      intro n c hc
      obtain ⟨u', hu', hcs⟩ := h (n + 1)
      rw [hu] at hu'
      cases hu'
      exact hcs c hc
    exact ⟨u, hu, fun c hc => ⟨fun n => (hlevel n c hc).1, (hlevel 0 c hc).2⟩⟩
  · rintro ⟨u, hu, hcs⟩ n
    cases n with
    | zero => trivial
    | succ n => exact ⟨u, hu, fun c hc => ⟨(hcs c hc).1 n, (hcs c hc).2⟩⟩

theorem tagSync_arrayOf {s : Store} {spec : Spec} {id : Nat} :
    TagSync s spec (.arrayOf id) ↔ ∃ a, s.arrays[id]? = some a ∧ TagSync s spec a.element := by
  constructor
  · intro h
    obtain ⟨a, ha, -⟩ := h 1
    refine ⟨a, ha, fun n => ?_⟩
    obtain ⟨a', ha', he⟩ := h (n + 1)
    rw [ha] at ha'
    cases ha'
    exact he
  · rintro ⟨a, ha, he⟩ n
    cases n with
    | zero => trivial
    | succ n => exact ⟨a, ha, he n⟩

theorem tagSync_lazy {s : Store} {spec : Spec} {lid : Nat} :
    TagSync s spec (.lazy lid) ↔ ∀ t, s.Grows t → ∀ tag u,
      (Run.resolveLazy lid).run.run t = (.ok tag, u) → TagSync u spec tag :=
  ⟨fun h t ht tag u hrun n => h (n + 1) t ht tag u hrun,
    fun h n => by
      cases n with
      | zero => trivial
      | succ n => exact fun t ht tag u hrun => h t ht tag u hrun n⟩

/-- **A check built from a synchronous tag is synchronous.** -/
theorem Store.Built.sync {s : Store} {k b spec rule tag} (h : s.Built k b spec rule tag) :
    TagSync s spec tag → (∀ r, rule = some r → RuleNow r) → NodeSync s b := by
  induction h with
  | member h _ => exact fun _ _ => (nodeSync_iff h).mpr trivial
  | bounded h _ => exact fun _ _ => (nodeSync_iff h).mpr trivial
  | pass h _ => exact fun _ _ => (nodeSync_iff h).mpr trivial
  | union h _ hu hlen _ ih =>
    intro htag _
    obtain ⟨u', hu', hcs⟩ := tagSync_anyOf.mp htag
    rw [hu] at hu'
    cases hu'
    refine (nodeSync_iff h).mpr fun x hx => ?_
    obtain ⟨c, hc⟩ := exists_zip_of_mem hlen hx
    have hcmem := (List.of_mem_zip hc).1
    exact ih _ hc (hcs c hcmem).1 (hcs c hcmem).2
  | array h _ ha _ ih =>
    intro htag _
    obtain ⟨a', ha', hel⟩ := tagSync_arrayOf.mp htag
    rw [ha] at ha'
    cases ha'
    exact (nodeSync_iff h).mpr (ih hel (by simp))
  | nested h _ _ => exact fun htag _ => (nodeSync_iff h).mpr (tagSync_schema.mp htag)
  | lazy h _ => exact fun htag _ => (nodeSync_iff h).mpr ⟨htag, by simp⟩
  | lazyBuilt h _ hl ht _ ih =>
    intro htag _
    -- the lazy tag resolved to its target, from this very store, so the target is synchronous
    have hsync := tagSync_lazy.mp htag s (Store.Grows.refl s) _ s (Run.resolveLazy_resolved hl ht)
    refine (nodeSync_iff h).mpr ⟨htag, fun b hb => ?_⟩
    cases hb
    exact ih hsync (by simp)
  | custom h _ _ ih =>
    exact fun htag hrule => (nodeSync_iff h).mpr ⟨ih htag (by simp), hrule _ rfl⟩

/-- **Synchrony survives the growth of the store**, level by level: a check a lazy check built
meanwhile is built from the tag its lazy tag resolved to, which is synchronous. -/
theorem syncAt_of_grows {s t : Store} (hg : s.Grows t) (n : Nat) :
    (∀ node, NodeSync s node → NodeSyncAt n t node) ∧
    (∀ sid, SchemaSync s sid → SchemaSyncAt n t sid) ∧
    (∀ spec tag, TagSync s spec tag → TagSyncAt n t spec tag) := by
  induction n with
  | zero => exact ⟨fun _ _ => trivial, fun _ _ => trivial, fun _ _ _ => trivial⟩
  | succ n ih =>
    obtain ⟨ihn, ihs, iht⟩ := ih
    refine ⟨fun node hnode => ?_, fun sid hsid => ?_, fun spec tag htag => ?_⟩
    · obtain ⟨c, hc, hcs⟩ := hnode.exists
      obtain ⟨c', hc', href⟩ := hg.checks node c hc
      cases c with
      | member p =>
        obtain rfl : c' = .member p := href
        simp only [NodeSyncAt, hc']
      | bounded p lo hi =>
        obtain rfl : c' = .bounded p lo hi := href
        simp only [NodeSyncAt, hc']
      | pass =>
        obtain rfl : c' = .pass := href
        simp only [NodeSyncAt, hc']
      | union cs =>
        obtain rfl : c' = .union cs := href
        simp only [NodeSyncAt, hc']
        exact fun x hx => ihn x.2 (hcs x hx)
      | array e lo hi =>
        obtain rfl : c' = .array e lo hi := href
        simp only [NodeSyncAt, hc']
        exact ihn e hcs
      | nested sid owned busy =>
        obtain ⟨busy', rfl⟩ := href
        simp only [NodeSyncAt, hc']
        exact ihs sid hcs
      | lazy lid field spec owner built =>
        obtain ⟨hlazy, hbuilt⟩ := hcs
        cases built with
        | none =>
          obtain ⟨built', rfl⟩ := href
          simp only [NodeSyncAt, hc']
          refine ⟨iht _ _ hlazy, fun b hb => ?_⟩
          subst hb
          obtain ⟨l, tt, k, hl, htt, -, hbt⟩ := hg.built node lid field spec owner b hc hc'
          exact hbt.sync (tagSync_lazy.mp hlazy t hg _ t (Run.resolveLazy_resolved hl htt))
            (by simp) n
        | some b =>
          obtain rfl : c' = .lazy lid field spec owner (some b) := href
          simp only [NodeSyncAt, hc']
          exact ⟨iht _ _ hlazy, fun b' hb' => ihn b' (hbuilt b' hb')⟩
      | custom inner r =>
        obtain rfl : c' = .custom inner r := href
        simp only [NodeSyncAt, hc']
        exact ⟨ihn inner hcs.1, hcs.2⟩
    · obtain ⟨sch, hsch, hfs⟩ := schemaSync_iff.mp hsid
      exact ⟨sch, hg.schemas sid sch hsch, fun f hf => ⟨(hfs f hf).1, ihn _ (hfs f hf).2⟩⟩
    · cases tag with
      | primitive p => trivial
      | any => trivial
      | anyOf id =>
        obtain ⟨u, hu, hcs⟩ := tagSync_anyOf.mp htag
        exact ⟨u, hg.unions id u hu, fun c hc => ⟨iht _ _ (hcs c hc).1, (hcs c hc).2⟩⟩
      | arrayOf id =>
        obtain ⟨a, ha, he⟩ := tagSync_arrayOf.mp htag
        exact ⟨a, hg.arrays id a ha, iht _ _ he⟩
      | schema sid => exact ihs sid (tagSync_schema.mp htag)
      | lazy lid =>
        exact fun t' ht' tag u hrun => tagSync_lazy.mp htag t' (hg.trans ht') tag u hrun n

theorem NodeSync.mono {s t : Store} (hg : s.Grows t) {node : Nat} (h : NodeSync s node) :
    NodeSync t node := fun n => (syncAt_of_grows hg n).1 node h

theorem SchemaSync.mono {s t : Store} (hg : s.Grows t) {sid : Nat} (h : SchemaSync s sid) :
    SchemaSync t sid := fun n => (syncAt_of_grows hg n).2.1 sid h

theorem TagSync.mono {s t : Store} (hg : s.Grows t) {spec : Spec} {tag : Tag}
    (h : TagSync s spec tag) : TagSync t spec tag := fun n => (syncAt_of_grows hg n).2.2 spec tag h

/-! ### Contexts and validators -/

/-- A context that exists and whose schema is synchronous. -/
def ContextSync (s : Store) (ctx : Nat) : Prop :=
  ∃ cx, s.contexts[ctx]? = some cx ∧ SchemaSync s cx.schema

/-- A validator that is not always pending and whose check is synchronous. -/
def ValidatorSync (s : Store) (val : Validator) : Prop :=
  val.alwaysPending = false ∧ NodeSync s val.check

theorem ContextSync.mono {s t : Store} (hg : s.Grows t) {ctx : Nat} (h : ContextSync s ctx) :
    ContextSync t ctx := by
  obtain ⟨cx, hcx, hsch⟩ := h
  obtain ⟨cx', hcx', hsame⟩ := hg.contexts ctx cx hcx
  exact ⟨cx', hcx', hsame ▸ hsch.mono hg⟩

theorem ValidatorSync.mono {s t : Store} (hg : s.Grows t) {val : Validator}
    (h : ValidatorSync s val) : ValidatorSync t val :=
  ⟨h.1, h.2.mono hg⟩

/-- The validators of a synchronous context's fields are synchronous. -/
theorem ContextSync.fields {s : Store} {ctx : Nat} (h : ContextSync s ctx) {cx : Context}
    (hcx : s.contexts[ctx]? = some cx) {sch : Schema} (hsch : s.schemas[cx.schema]? = some sch) :
    ∀ f ∈ sch.fields, ValidatorSync s f.2.validator := by
  obtain ⟨cx', hcx', hsync⟩ := h
  rw [hcx] at hcx'
  cases hcx'
  obtain ⟨sch', hsch', hfs⟩ := schemaSync_iff.mp hsync
  rw [hsch] at hsch'
  cases hsch'
  exact hfs

end Schematic
