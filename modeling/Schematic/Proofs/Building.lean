import Mathlib
import Schematic.Proofs.Coherence

/-!
# Building only adds

Whatever builds objects (resolving and normalizing declarations, building the checks of a tag,
building a schema, the value of a term, resolving a lazy tag, calling a custom rule) only adds
objects to a coherent store and keeps it coherent: it is `Adding`. A nested-schema check is
built together with the context it owns, and a schema is filled with validators named after
their fields (`Build.fields_named`).

The proofs follow the definitions: instance search for straight-line blocks, a hand split where
a block matches on a result it computed, and an induction on the fuel of `Build.factory` and on
terms for `Term.eval`.
-/

namespace Schematic

namespace Adding

/-! ### Checks that are not nested -/

instance addMember (p : Primitive) : Adding (Store.addCheck (.member p)) :=
  of_addCheck (by simp)

instance addBounded (p : Primitive) (lo hi : Value) :
    Adding (Store.addCheck (.bounded p lo hi)) :=
  of_addCheck (by simp)

instance addPass : Adding (Store.addCheck .pass) := of_addCheck (by simp)

instance addUnion (cs : List (Option Bool × Nat)) : Adding (Store.addCheck (.union cs)) :=
  of_addCheck (by simp)

instance addArrayCheck (e : Nat) (lo hi : Option Int) : Adding (Store.addCheck (.array e lo hi)) :=
  of_addCheck (by simp)

instance addLazyCheck (lid : Nat) (field : Option String) (spec : Spec) (owner built : Option Nat) :
    Adding (Store.addCheck (.lazy lid field spec owner built)) :=
  of_addCheck (by simp)

instance addCustom (inner : Nat) (rule : Value) : Adding (Store.addCheck (.custom inner rule)) :=
  of_addCheck (by simp)

end Adding

/-! ### Declarations and rules -/

instance Registry.resolve_adding (id : Nat) (decl : Value) : Adding (Registry.resolve id decl) := by
  unfold Registry.resolve Registry.lookup
  split
  · infer_instance
  · refine @Adding.bind _ _ _ _ inferInstance fun o => ?_
    split
    · infer_instance
    · split <;> infer_instance

instance Declaration.newArray_adding (t : Tag) : Adding (Declaration.newArray t) := by
  unfold Declaration.newArray
  infer_instance

instance Declaration.resolveType_adding (reg : Option Nat) (field : Option String) (v : Value) :
    Adding (Declaration.resolveType reg field v) := by
  induction v using Declaration.resolveType.induct with
  | case1 => rw [Declaration.resolveType]; infer_instance
  | case2 => rw [Declaration.resolveType]; infer_instance
  | case3 x hx ih => rw [Declaration.resolveType.eq_3 _ _ _ hx]; infer_instance
  | case4 items h => rw [Declaration.resolveType.eq_4 _ _ _ h]; infer_instance
  | case5 id => rw [Declaration.resolveType]; infer_instance
  | case6 decl h1 h2 h3 h4 =>
    rw [Declaration.resolveType.eq_6 _ _ _ h1 h2 h3 h4]
    refine @Adding.bind _ _ _ _ inferInstance fun o => ?_
    split <;> infer_instance

instance Declaration.normalizeField_adding (reg : Option Nat) (field : Option String)
    (decl : Value) : Adding (Declaration.normalizeField reg field decl) := by
  unfold Declaration.normalizeField
  split <;> infer_instance

instance Declaration.normalizeFields_adding (reg : Option Nat) (decls : List (Value × Value)) :
    Adding (Declaration.normalizeFields reg decls) := by
  unfold Declaration.normalizeFields
  refine @Adding.mapM _ _ _ (fun kd => ?_) decls
  obtain ⟨k, d⟩ := kd
  dsimp only
  split <;> infer_instance

instance Declaration.newUnion_adding (reg : Option Nat) (cands : List Value) :
    Adding (Declaration.newUnion reg cands) := by
  unfold Declaration.newUnion
  infer_instance

instance Rule.call_adding (r : Rule) (v : Value) : Adding (Rule.call r v) := by
  cases r <;> simp only [Rule.call] <;> infer_instance

instance Rule.callValue_adding (f v : Value) : Adding (Rule.callValue f v) := by
  unfold Rule.callValue
  split <;> infer_instance

/-! ### Checks, validators and schemas -/

namespace Build

/-- The candidates of a union, each built by a computation that only adds. -/
theorem candidateChecks_adding {fuel : Nat}
    (h : ∀ tag field spec owner rule, Adding (factory fuel tag field spec owner rule))
    (field : Option String) (owner : Option Nat) :
    ∀ specs : List Spec, Adding (candidateChecks fuel specs field owner)
  | [] => by
    rw [candidateChecks]
    infer_instance
  | c :: rest => by
    have := h c.type field c owner c.custom
    have := candidateChecks_adding h field owner rest
    rw [candidateChecks]
    infer_instance

theorem tagCheck_adding {fuel : Nat}
    (h : ∀ tag field spec owner rule, Adding (factory fuel tag field spec owner rule))
    (tag : Tag) (field : Option String) (spec : Spec) (owner : Option Nat) :
    Adding (tagCheck (fuel + 1) tag field spec owner) := by
  have := candidateChecks_adding h field owner
  have := h
  cases tag with
  | schema sid =>
    simp only [tagCheck]
    exact Adding.of_addNested sid
  | _ =>
    simp only [tagCheck]
    infer_instance

/-- **Building a check only adds**: a nested-schema check comes with a fresh context. -/
instance factory_adding (fuel : Nat) (tag : Tag) (field : Option String) (spec : Spec)
    (owner : Option Nat) (rule : Option Value) : Adding (factory fuel tag field spec owner rule) := by
  induction fuel generalizing tag field spec owner rule with
  | zero =>
    rw [factory, tagCheck]
    cases rule <;> infer_instance
  | succ fuel ih =>
    have := tagCheck_adding ih tag field spec owner
    rw [factory]
    cases rule <;> infer_instance

instance validator_adding (field : Option String) (spec : Spec) (owner : Option Nat) :
    Adding (validator field spec owner) := by
  unfold validator
  infer_instance

instance fields_adding (owner : Option Nat) (specs : List (String × Spec)) :
    Adding (fields owner specs) := by
  unfold fields
  infer_instance

/-- A validator is named after the field it is built for. -/
theorem validator_field {field : Option String} {spec : Spec} {owner : Option Nat} {s t : Store}
    {val : Validator} (h : (validator field spec owner).run.run s = (.ok val, t)) :
    val.field = field := by
  unfold validator at h
  obtain ⟨_, _, -, h⟩ := Run.ok_of_bind h
  cases h
  rfl

/-- The fields a schema is given are named after their validators. -/
theorem fields_named {owner : Option Nat} :
    ∀ {specs : List (String × Spec)} {s t : Store} {fs : List (String × Field)},
      (fields owner specs).run.run s = (.ok fs, t) → ∀ f ∈ fs, f.2.validator.field = some f.1
  | [], s, t, fs, h => by
    simp only [fields, List.mapM_nil] at h
    cases h
    simp
  | (name, spec) :: rest, s, t, fs, h => by
    unfold fields at h
    rw [List.mapM_cons] at h
    obtain ⟨f, u, hf, h⟩ := Run.ok_of_bind h
    obtain ⟨fs', u', hfs, h⟩ := Run.ok_of_bind h
    cases h
    obtain ⟨val, u₁, hval, hf⟩ := Run.ok_of_bind hf
    cases hf
    intro g hg
    rcases List.mem_cons.mp hg with rfl | hg
    · exact validator_field hval
    · exact fields_named hfs g hg

end Build

namespace Schema

/-- Adding a schema with no fields yet. -/
theorem addSchema_adding {x : Schema} (hx : x.fields = []) : Adding (Store.addSchema x) :=
  ⟨fun s hs => ⟨hs.push_schema (by simp [hx]), Store.adds_push_schema s x⟩⟩

/-- What a computation adds to `s` it adds to every store `s` was added to. -/
theorem stays_of_base {α : Type} {m : Run α} {s₀ s : Store}
    (h : s.Coherent → Stays (fun u => u.Coherent ∧ s.Adds u) m s) :
    Stays (fun u => u.Coherent ∧ s₀.Adds u) m s := by
  rintro ⟨hc, h₀⟩
  obtain ⟨hc', h'⟩ := h hc ⟨hc, .refl s⟩
  exact ⟨hc', h₀.trans h'⟩

/-- Adding a schema and filling it with the fields built for it only adds: the schema filled is
the one just added, so every schema that was there stays as it was. -/
theorem fill_adding (opts : SchemaOptions) (registry : Option Nat)
    (decls : List (Value × Value)) :
    Adding (do
      let id ← Store.addSchema
        { options := opts, registry, declarations := decls, fields := [], named := [] }
      let specs ← Declaration.normalizeFields registry decls
      let built ← Build.fields (some id) specs
      let s ← Store.schema id
      Store.setSchema id { s with fields := built }
      pure id) := by
  refine Adding.of_stays fun s₀ s => stays_of_base fun _ => ?_
  refine Stays.bind (Adding.stays (addSchema_adding rfl) s s) fun id s₁ hid => ?_
  refine Adding.stays_bind fun specs s₂ _ => ?_
  refine Adding.stays_bind fun built s₃ hbuilt => ?_
  refine Stays.bind (Stays.read _) fun sch s₄ hsch => ?_
  simp only [Store.run_schema] at hsch
  obtain ⟨-, rfl⟩ := hsch
  refine Stays.bind (Stays.of_run (Store.run_change _ s₃) ?_) fun _ _ _ => Stays.pure id
  rintro ⟨hc, hadd⟩
  have hid : s.schemas.size = id := by
    cases hid
    rfl
  exact ⟨hc.set_schema (Build.fields_named hbuilt), hadd.set_schema hid.le _⟩

/-- **Building a schema only adds.** -/
instance create_adding (fields options : Value) (registry : Option Nat) :
    Adding (create fields options registry) := by
  have := fill_adding
  unfold create
  dsimp only
  -- the checks before the schema is added only read the arguments
  repeat' split
  all_goals infer_instance

end Schema

/-! ### Terms -/

namespace Term

instance orderKeys_adding (keys : List Value) : Adding (orderKeys keys) := by
  unfold orderKeys
  split <;> infer_instance

instance asType_adding (decl : Value) : Adding (asType decl) := by
  unfold asType
  split
  · split <;> infer_instance
  · infer_instance

instance registryOf_adding (name : Option String) : Adding (registryOf name) := by
  cases name <;> (unfold registryOf; infer_instance)

mutual

/-- **The value of a term only adds**: the schemas, tags and rules it makes are new. -/
theorem eval_adding : ∀ t : Term, Adding (eval t)
  | .lit v => by rw [eval]; infer_instance
  | .bytes s => by rw [eval]; split <;> infer_instance
  | .date s => by rw [eval]; split <;> infer_instance
  | .dateTime s => by rw [eval]; split <;> infer_instance
  | .list ts => by have := evalList_adding ts; rw [eval]; infer_instance
  | .tuple ts => by have := evalList_adding ts; rw [eval]; infer_instance
  | .dict ps => by have := evalPairs_adding ps; rw [eval]; infer_instance
  | .foreign => by rw [eval]; infer_instance
  | .any cs r => by have := evalList_adding cs; rw [eval]; infer_instance
  | .anyOf cs r => by have := evalList_adding cs; rw [eval]; infer_instance
  | .arrayOf e r => by have := eval_adding e; rw [eval]; infer_instance
  | .integer => by rw [eval]; infer_instance
  | .ref name => by
    rw [eval]
    refine @Adding.bind _ _ _ _ inferInstance fun o => ?_
    split <;> infer_instance
  | .lazy body name r => by rw [eval]; infer_instance
  | .tag d r => by have := eval_adding d; rw [eval]; infer_instance
  | .fieldSpec d r => by have := eval_adding d; rw [eval]; infer_instance
  | .schema fs opts r => by
    have := eval_adding fs
    cases opts with
    | none => rw [eval]; infer_instance
    | some o => have := eval_adding o; rw [eval]; infer_instance
  | .rule r => by have := evalRule_adding r; rw [eval]; infer_instance

theorem evalList_adding : ∀ ts : List Term, Adding (evalList ts)
  | [] => by rw [evalList]; infer_instance
  | t :: ts => by
    have := eval_adding t
    have := evalList_adding ts
    rw [evalList]
    infer_instance

theorem evalPairs_adding : ∀ ps : List (Term × Term), Adding (evalPairs ps)
  | [] => by rw [evalPairs]; infer_instance
  | (k, v) :: ps => by
    have := eval_adding k
    have := eval_adding v
    have := evalPairs_adding ps
    rw [evalPairs]
    refine @Adding.bind _ _ _ _ inferInstance fun kv => ?_
    refine @Adding.bind _ _ _ _ inferInstance fun vv => ?_
    split <;> infer_instance

theorem evalRule_adding : ∀ r : RuleTerm, Adding (evalRule r)
  | .const t => by have := eval_adding t; rw [evalRule]; infer_instance
  | .equals a b => by have := eval_adding a; have := eval_adding b; rw [evalRule]; infer_instance
  | .member a b => by have := eval_adding a; have := eval_adding b; rw [evalRule]; infer_instance
  | .minLength a b => by have := eval_adding a; have := eval_adding b; rw [evalRule]; infer_instance
  | .greaterThan a b => by
    have := eval_adding a
    have := eval_adding b
    rw [evalRule]
    infer_instance
  | .startsWith a b => by have := eval_adding a; have := eval_adding b; rw [evalRule]; infer_instance
  | .raises t => by have := eval_adding t; rw [evalRule]; infer_instance
  | .coroutine r => by have := evalRule_adding r; rw [evalRule]; infer_instance
  | .awaitable r => by have := evalRule_adding r; rw [evalRule]; infer_instance

end

instance (t : Term) : Adding (eval t) := eval_adding t

end Term

/-! ### What a run builds -/

/-- Resolving a lazy tag only adds: it builds its term once and records the target. -/
instance Run.resolveLazy_adding (lid : Nat) : Adding (Run.resolveLazy lid) := by
  unfold Run.resolveLazy
  refine @Adding.bind _ _ _ _ inferInstance fun l => ?_
  split <;> infer_instance

instance Run.applyRule_adding (rule v : Value) : Adding (Run.applyRule rule v) := by
  unfold Run.applyRule
  refine @Adding.bind _ _ _ _ inferInstance fun o => ?_
  split <;> infer_instance

end Schematic
