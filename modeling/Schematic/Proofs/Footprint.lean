import Mathlib
import Schematic.Proofs.Building
import Schematic.Proofs.Frames

/-!
# What a computation leaves alone

A *patch* sets one part of the store to a given value: one context, or the pending work (the
batch results and the event loop's tasks, gathers and ready queue). A computation *commutes*
with a patch when, run on the patched store, it answers what it answers on the store itself and
leaves the patched result: it neither reads nor writes the part the patch sets. One more patch,
`atLeast n`, sets nothing and fits the stores with at least `n` contexts: commuting with it is
never dropping below `n` contexts.

* Building (declarations, checks, schemas, terms, custom rules) commutes with every patch: it
  reads no context and no pending work, and the only contexts it makes are new ones.
* Running checks, contexts and validators commutes with every patch that sets no context
  (`Run.commutes`): a run never adds, wakes or reads pending work, so it leaves it as it found it
  (`Commutes.work_eq`), and it never drops a context (`Commutes.contexts_le`).

As for `Adding`, `Commutes` is a class with an instance for each way computations are put
together, so that instance search proves it for a straight-line block; a block that matches on
a result it computed is split by hand first.
-/

namespace Schematic

namespace Store

/-- A part of the store set to a given value. -/
inductive Patch where
  /-- Context `c` is `x`. -/
  | context (c : Nat) (x : Context)
  /-- The pending work: batch results, and the event loop's tasks, gathers and ready queue. -/
  | work (batches : Array Batch) (tasks : Array Task) (gathers : Array Gather)
      (ready : List Handle)
  /-- Nothing is set; the store holds at least `n` contexts. -/
  | atLeast (n : Nat)

namespace Patch

/-- The store with the patch's part set. -/
def apply : Patch → Store → Store
  | .context c x, s => { s with contexts := s.contexts.setIfInBounds c x }
  | .work batches tasks gathers ready, s => { s with batches, tasks, gathers, ready }
  | .atLeast _, s => s

/-- The store is one the patch is meant for: the context it sets exists, or the store has the
contexts it asks for. -/
def Fits : Patch → Store → Prop
  | .context c _, s => c < s.contexts.size
  | .work _ _ _ _, _ => True
  | .atLeast n, s => n ≤ s.contexts.size

/-- Setting the pending work to what it is changes nothing. -/
theorem apply_work_self (s : Store) : (work s.batches s.tasks s.gathers s.ready).apply s = s :=
  rfl

/-- A patch that sets no context. -/
class SetsNoContext (p : Patch) : Prop where
  ne_context : ∀ c x, p ≠ .context c x

instance (batches : Array Batch) (tasks : Array Task) (gathers : Array Gather)
    (ready : List Handle) : SetsNoContext (work batches tasks gathers ready) :=
  ⟨fun _ _ h => by cases h⟩

instance (n : Nat) : SetsNoContext (atLeast n) := ⟨fun _ _ h => by cases h⟩

end Patch

end Store

open Store

/-- `m` neither reads nor writes the part of the store `p` sets: from a store the patch fits,
it leaves one the patch fits, and run on the patched store it answers the same and leaves the
patched result. -/
class Commutes (p : Patch) {α : Type} (m : Run α) : Prop where
  comm : ∀ s, p.Fits s → p.Fits (m.run.run s).2 ∧
    m.run.run (p.apply s) = ((m.run.run s).1, p.apply (m.run.run s).2)

namespace Commutes

variable {p : Patch} {α β : Type}

/-- **A computation that commutes with the work patches leaves the pending work as it found
it.** -/
theorem work_eq {m : Run α} (h : ∀ B T G R, Commutes (.work B T G R) m) (s : Store) :
    (m.run.run s).2.batches = s.batches ∧ (m.run.run s).2.tasks = s.tasks ∧
      (m.run.run s).2.gathers = s.gathers ∧ (m.run.run s).2.ready = s.ready := by
  have hm := ((h s.batches s.tasks s.gathers s.ready).comm s trivial).2
  rw [Patch.apply_work_self] at hm
  have h₂ := congrArg Prod.snd hm
  have hbatches := congrArg Store.batches h₂
  have htasks := congrArg Store.tasks h₂
  have hgathers := congrArg Store.gathers h₂
  have hready := congrArg Store.ready h₂
  exact ⟨hbatches, htasks, hgathers, hready⟩

/-- A computation that commutes with every `atLeast` patch never drops a context. -/
theorem contexts_le {m : Run α} (h : ∀ n, Commutes (.atLeast n) m) (s : Store) :
    s.contexts.size ≤ (m.run.run s).2.contexts.size :=
  ((h s.contexts.size).comm s (Nat.le_refl _)).1

/-! ### Putting computations together -/

instance of_pure (a : α) : Commutes p (pure a : Run α) := ⟨fun _ h => ⟨h, rfl⟩⟩

instance of_throw (e : Fault) : Commutes p (throw e : Run α) := ⟨fun _ h => ⟨h, rfl⟩⟩

/-- A read of a part of the store the patch does not set. -/
theorem of_read (f : Store → α) (hf : ∀ s, p.Fits s → f (p.apply s) = f s) :
    Commutes p (Store.read f) :=
  ⟨fun s h => ⟨h, by simp only [Store.run_read, hf s h]⟩⟩

/-- A change that keeps the patch fitting and does not touch what it sets. -/
theorem of_change (f : Store → Store) (hf : ∀ s, p.Fits s → p.Fits (f s) ∧ f (p.apply s) = p.apply (f s)) :
    Commutes p (Store.change f) :=
  ⟨fun s h => ⟨(hf s h).1, by simp only [Store.run_change, (hf s h).2]⟩⟩

instance bind {x : Run α} {f : α → Run β} [hx : Commutes p x] [hf : ∀ a, Commutes p (f a)] :
    Commutes p (x >>= f) := by
  refine ⟨fun s hs => ?_⟩
  obtain ⟨ht, hxp⟩ := hx.comm s hs
  rw [Run.run_bind, Run.run_bind, hxp]
  rcases h : x.run.run s with ⟨r, t⟩
  rw [h] at ht
  cases r with
  | ok a => exact (hf a).comm t ht
  | error e => exact ⟨ht, rfl⟩

instance map {x : Run α} {f : α → β} [hx : Commutes p x] : Commutes p (f <$> x) := by
  refine ⟨fun s hs => ?_⟩
  obtain ⟨ht, hxp⟩ := hx.comm s hs
  rw [Run.run_map, Run.run_map, hxp]
  rcases h : x.run.run s with ⟨r, t⟩
  rw [h] at ht
  cases r <;> exact ⟨ht, rfl⟩

instance tryCatch {x : Run α} {h : Fault → Run α} [hx : Commutes p x] [hh : ∀ e, Commutes p (h e)] :
    Commutes p (tryCatch x h) := by
  refine ⟨fun s hs => ?_⟩
  obtain ⟨ht, hxp⟩ := hx.comm s hs
  rw [Run.run_tryCatch, Run.run_tryCatch, hxp]
  rcases hr : x.run.run s with ⟨r, t⟩
  rw [hr] at ht
  cases r with
  | ok a => exact ⟨ht, rfl⟩
  | error e => exact (hh e).comm t ht

/-- What follows a raised fault never runs. -/
instance throw_bind (e : Fault) (f : α → Run β) : Commutes p (throw e >>= f) :=
  ⟨fun _ h => ⟨h, rfl⟩⟩

instance of_ite {c : Prop} [Decidable c] {x y : Run α} [Commutes p x] [Commutes p y] :
    Commutes p (if c then x else y) := by
  split <;> infer_instance

instance mapM {f : α → Run β} [∀ a, Commutes p (f a)] : ∀ xs : List α, Commutes p (xs.mapM f)
  | [] => of_pure []
  | x :: xs => by
    rw [List.mapM_cons]
    have := mapM (f := f) xs
    infer_instance

instance forIn {f : α → β → Run (ForInStep β)} [∀ a b, Commutes p (f a b)] :
    ∀ (xs : List α) (b : β), Commutes p (forIn xs b f)
  | [], b => of_pure b
  | x :: xs, b => by
    rw [List.forIn_cons]
    have := forIn (f := f) xs
    refine @bind _ _ _ _ _ inferInstance fun r => ?_
    cases r <;> infer_instance

instance of_lift (r : Except Fault α) : Commutes p (Rule.lift r) := by
  cases r <;> exact ⟨fun _ h => ⟨h, rfl⟩⟩

/-! ### Reading and writing what no patch sets -/

instance of_naming : Commutes p Store.naming := of_read _ fun _ _ => by cases p <;> rfl

instance of_schema (id : Nat) : Commutes p (Store.schema id) :=
  of_read _ fun _ _ => by cases p <;> rfl

instance of_check (id : Nat) : Commutes p (Store.check id) :=
  of_read _ fun _ _ => by cases p <;> rfl

instance of_union (id : Nat) : Commutes p (Store.union id) :=
  of_read _ fun _ _ => by cases p <;> rfl

instance of_array (id : Nat) : Commutes p (Store.array id) :=
  of_read _ fun _ _ => by cases p <;> rfl

instance of_lazyTag (id : Nat) : Commutes p (Store.lazyTag id) :=
  of_read _ fun _ _ => by cases p <;> rfl

instance of_schemaName (id : Nat) : Commutes p (Store.schemaName id) :=
  of_read _ fun _ _ => by cases p <;> rfl

instance of_schemaNamed (name : String) : Commutes p (Store.schemaNamed? name) :=
  of_read _ fun _ _ => by cases p <;> rfl

instance of_registryNamed (name : String) : Commutes p (Store.registryNamed? name) :=
  of_read _ fun _ _ => by cases p <;> rfl

instance of_plain (v : Value) : Commutes p (Store.plain v) := by
  unfold Store.plain
  infer_instance

instance of_shown (v : Value) : Commutes p (Store.shown v) := by
  unfold Store.shown
  infer_instance

instance of_tagName (t : Tag) : Commutes p (Store.tagName t) :=
  of_read _ fun _ _ => by cases p <;> rfl

/-- The nearest binding of a key depends on the registries alone. -/
theorem lookupWith_congr {s t : Store} (h : t.registries = s.registries) (key : Value) :
    ∀ id fuel, Registry.lookupWith t key id fuel = Registry.lookupWith s key id fuel
  | _, 0 => rfl
  | id, fuel + 1 => by
    simp only [Registry.lookupWith, h, lookupWith_congr h key _ fuel]

instance of_lookup (id : Nat) (key : Value) : Commutes p (Registry.lookup id key) :=
  of_read _ fun s _ => by
    have h : (p.apply s).registries = s.registries := by cases p <;> rfl
    simp only [h, lookupWith_congr h]

instance of_setCheck (id : Nat) (x : Check) : Commutes p (Store.setCheck id x) :=
  of_change _ fun _ h => by cases p <;> exact ⟨h, rfl⟩

instance of_setLazy (id : Nat) (x : LazyTag) : Commutes p (Store.setLazy id x) :=
  of_change _ fun _ h => by cases p <;> exact ⟨h, rfl⟩

instance of_setSchema (id : Nat) (x : Schema) : Commutes p (Store.setSchema id x) :=
  of_change _ fun _ h => by cases p <;> exact ⟨h, rfl⟩

instance of_addCheck (x : Check) : Commutes p (Store.addCheck x) :=
  ⟨fun _ h => by cases p <;> exact ⟨h, rfl⟩⟩

instance of_addArray (x : ArrayTag) : Commutes p (Store.addArray x) :=
  ⟨fun _ h => by cases p <;> exact ⟨h, rfl⟩⟩

instance of_addUnion (x : UnionTag) : Commutes p (Store.addUnion x) :=
  ⟨fun _ h => by cases p <;> exact ⟨h, rfl⟩⟩

instance of_addLazy (x : LazyTag) : Commutes p (Store.addLazy x) :=
  ⟨fun _ h => by cases p <;> exact ⟨h, rfl⟩⟩

instance of_addSchema (x : Schema) : Commutes p (Store.addSchema x) :=
  ⟨fun _ h => by cases p <;> exact ⟨h, rfl⟩⟩

instance of_freshForeign : Commutes p Store.freshForeign :=
  ⟨fun _ h => by cases p <;> exact ⟨h, rfl⟩⟩

/-- Setting an entry of an array and pushing another are independent. -/
theorem push_setIfInBounds {γ : Type} (xs : Array γ) {c : Nat} (hc : c < xs.size) (x y : γ) :
    (xs.setIfInBounds c x).push y = (xs.push y).setIfInBounds c x := by
  ext i hi₁ hi₂
  · simp
  · simp only [Array.getElem_push, Array.size_setIfInBounds]
    grind

/-- A new context is added after every context a patch may set. -/
instance of_create (sid : Nat) : Commutes p (Context.create sid) := by
  refine ⟨fun s h => ?_⟩
  cases p with
  | context c x =>
    refine ⟨?_, ?_⟩
    · show c < (s.contexts.push { schema := sid }).size
      rw [Array.size_push]
      exact Nat.lt_succ_of_lt h
    simp only [Context.create, Store.run_addContext, Patch.apply, Array.size_setIfInBounds,
      push_setIfInBounds s.contexts h]
  | work => exact ⟨h, rfl⟩
  | atLeast n =>
    refine ⟨?_, rfl⟩
    show n ≤ (s.contexts.push { schema := sid }).size
    rw [Array.size_push]
    exact Nat.le_succ_of_le h

end Commutes

/-! ### Building commutes with every patch -/

section Building

variable (p : Patch)

instance Registry.resolve_commutes (id : Nat) (decl : Value) :
    Commutes p (Registry.resolve id decl) := by
  unfold Registry.resolve
  split
  · infer_instance
  · refine @Commutes.bind _ _ _ _ _ inferInstance fun o => ?_
    split
    · infer_instance
    · split <;> infer_instance

instance Declaration.newArray_commutes (t : Tag) : Commutes p (Declaration.newArray t) := by
  unfold Declaration.newArray
  infer_instance

instance Declaration.resolveType_commutes (reg : Option Nat) (field : Option String) (v : Value) :
    Commutes p (Declaration.resolveType reg field v) := by
  induction v using Declaration.resolveType.induct with
  | case1 => rw [Declaration.resolveType]; infer_instance
  | case2 => rw [Declaration.resolveType]; infer_instance
  | case3 x hx ih => rw [Declaration.resolveType.eq_3 _ _ _ hx]; infer_instance
  | case4 items h => rw [Declaration.resolveType.eq_4 _ _ _ h]; infer_instance
  | case5 id => rw [Declaration.resolveType]; infer_instance
  | case6 decl h1 h2 h3 h4 =>
    rw [Declaration.resolveType.eq_6 _ _ _ h1 h2 h3 h4]
    refine @Commutes.bind _ _ _ _ _ inferInstance fun o => ?_
    split <;> infer_instance

instance Declaration.normalizeField_commutes (reg : Option Nat) (field : Option String)
    (decl : Value) : Commutes p (Declaration.normalizeField reg field decl) := by
  unfold Declaration.normalizeField
  split <;> infer_instance

instance Declaration.normalizeFields_commutes (reg : Option Nat) (decls : List (Value × Value)) :
    Commutes p (Declaration.normalizeFields reg decls) := by
  unfold Declaration.normalizeFields
  refine @Commutes.mapM _ _ _ _ (fun kd => ?_) decls
  obtain ⟨k, d⟩ := kd
  dsimp only
  split <;> infer_instance

instance Declaration.newUnion_commutes (reg : Option Nat) (cands : List Value) :
    Commutes p (Declaration.newUnion reg cands) := by
  unfold Declaration.newUnion
  infer_instance

instance Rule.call_commutes (r : Rule) (v : Value) : Commutes p (Rule.call r v) := by
  cases r <;> simp only [Rule.call] <;> infer_instance

instance Rule.callValue_commutes (f v : Value) : Commutes p (Rule.callValue f v) := by
  unfold Rule.callValue
  split <;> infer_instance

/-- The checks of a tag are built by a computation that commutes with the patch, given the
same of every build one level of fuel down. -/
theorem Build.tagCheck_commutes {fuel : Nat}
    (h : ∀ tag field spec owner rule, Commutes p (Build.factory fuel tag field spec owner rule))
    (tag : Tag) (field : Option String) (spec : Spec) (owner : Option Nat) :
    Commutes p (Build.tagCheck (fuel + 1) tag field spec owner) := by
  have hcands : ∀ specs, Commutes p (Build.candidateChecks fuel specs field owner) := by
    intro specs
    induction specs with
    | nil => rw [Build.candidateChecks]; infer_instance
    | cons c rest ih =>
      have := h c.type field c owner c.custom
      rw [Build.candidateChecks]
      infer_instance
  have := h
  cases tag <;> simp only [Build.tagCheck] <;> infer_instance

instance Build.factory_commutes (fuel : Nat) (tag : Tag) (field : Option String) (spec : Spec)
    (owner : Option Nat) (rule : Option Value) :
    Commutes p (Build.factory fuel tag field spec owner rule) := by
  induction fuel generalizing tag field spec owner rule with
  | zero =>
    rw [Build.factory, Build.tagCheck]
    cases rule <;> infer_instance
  | succ fuel ih =>
    have := Build.tagCheck_commutes p ih tag field spec owner
    rw [Build.factory]
    cases rule <;> infer_instance

instance Build.validator_commutes (field : Option String) (spec : Spec) (owner : Option Nat) :
    Commutes p (Build.validator field spec owner) := by
  unfold Build.validator
  infer_instance

instance Build.fields_commutes (owner : Option Nat) (specs : List (String × Spec)) :
    Commutes p (Build.fields owner specs) := by
  unfold Build.fields
  infer_instance

instance Schema.create_commutes (fields options : Value) (registry : Option Nat) :
    Commutes p (Schema.create fields options registry) := by
  have fill : ∀ opts decls, Commutes p (do
      let id ← Store.addSchema
        { options := opts, registry, declarations := decls, fields := [], named := [] }
      let specs ← Declaration.normalizeFields registry decls
      let built ← Build.fields (some id) specs
      let s ← Store.schema id
      Store.setSchema id { s with fields := built }
      pure id) := fun _ _ => inferInstance
  unfold Schema.create
  dsimp only
  repeat' split
  all_goals infer_instance

instance Term.orderKeys_commutes (keys : List Value) : Commutes p (Term.orderKeys keys) := by
  unfold Term.orderKeys
  split <;> infer_instance

instance Term.asType_commutes (decl : Value) : Commutes p (Term.asType decl) := by
  unfold Term.asType
  split
  · split <;> infer_instance
  · infer_instance

instance Term.registryOf_commutes (name : Option String) : Commutes p (Term.registryOf name) := by
  cases name <;> (unfold Term.registryOf; infer_instance)

mutual

/-- The value of a term commutes with every patch. -/
theorem Term.eval_commutes : ∀ t : Term, Commutes p (Term.eval t)
  | .lit v => by rw [Term.eval]; infer_instance
  | .bytes s => by rw [Term.eval]; split <;> infer_instance
  | .date s => by rw [Term.eval]; split <;> infer_instance
  | .dateTime s => by rw [Term.eval]; split <;> infer_instance
  | .list ts => by have := Term.evalList_commutes ts; rw [Term.eval]; infer_instance
  | .tuple ts => by have := Term.evalList_commutes ts; rw [Term.eval]; infer_instance
  | .dict ps => by have := Term.evalPairs_commutes ps; rw [Term.eval]; infer_instance
  | .foreign => by rw [Term.eval]; infer_instance
  | .any cs r => by have := Term.evalList_commutes cs; rw [Term.eval]; infer_instance
  | .anyOf cs r => by have := Term.evalList_commutes cs; rw [Term.eval]; infer_instance
  | .arrayOf e r => by have := Term.eval_commutes e; rw [Term.eval]; infer_instance
  | .integer => by rw [Term.eval]; infer_instance
  | .ref name => by
    rw [Term.eval]
    refine @Commutes.bind _ _ _ _ _ inferInstance fun o => ?_
    split <;> infer_instance
  | .lazy body name r => by rw [Term.eval]; infer_instance
  | .tag d r => by have := Term.eval_commutes d; rw [Term.eval]; infer_instance
  | .fieldSpec d r => by have := Term.eval_commutes d; rw [Term.eval]; infer_instance
  | .schema fs opts r => by
    have := Term.eval_commutes fs
    cases opts with
    | none => rw [Term.eval]; infer_instance
    | some o => have := Term.eval_commutes o; rw [Term.eval]; infer_instance
  | .rule r => by have := Term.evalRule_commutes r; rw [Term.eval]; infer_instance

theorem Term.evalList_commutes : ∀ ts : List Term, Commutes p (Term.evalList ts)
  | [] => by rw [Term.evalList]; infer_instance
  | t :: ts => by
    have := Term.eval_commutes t
    have := Term.evalList_commutes ts
    rw [Term.evalList]
    infer_instance

theorem Term.evalPairs_commutes : ∀ ps : List (Term × Term), Commutes p (Term.evalPairs ps)
  | [] => by rw [Term.evalPairs]; infer_instance
  | (k, v) :: ps => by
    have := Term.eval_commutes k
    have := Term.eval_commutes v
    have := Term.evalPairs_commutes ps
    rw [Term.evalPairs]
    refine @Commutes.bind _ _ _ _ _ inferInstance fun kv => ?_
    refine @Commutes.bind _ _ _ _ _ inferInstance fun vv => ?_
    split <;> infer_instance

theorem Term.evalRule_commutes : ∀ r : RuleTerm, Commutes p (Term.evalRule r)
  | .const t => by have := Term.eval_commutes t; rw [Term.evalRule]; infer_instance
  | .equals a b => by
    have := Term.eval_commutes a; have := Term.eval_commutes b; rw [Term.evalRule]; infer_instance
  | .member a b => by
    have := Term.eval_commutes a; have := Term.eval_commutes b; rw [Term.evalRule]; infer_instance
  | .minLength a b => by
    have := Term.eval_commutes a; have := Term.eval_commutes b; rw [Term.evalRule]; infer_instance
  | .greaterThan a b => by
    have := Term.eval_commutes a; have := Term.eval_commutes b; rw [Term.evalRule]; infer_instance
  | .startsWith a b => by
    have := Term.eval_commutes a; have := Term.eval_commutes b; rw [Term.evalRule]; infer_instance
  | .raises t => by have := Term.eval_commutes t; rw [Term.evalRule]; infer_instance
  | .coroutine r => by have := Term.evalRule_commutes r; rw [Term.evalRule]; infer_instance
  | .awaitable r => by have := Term.evalRule_commutes r; rw [Term.evalRule]; infer_instance

end

instance (t : Term) : Commutes p (Term.eval t) := Term.eval_commutes p t

/-- Resolving a lazy tag builds its term and records the target, and commutes with every
patch. -/
instance Run.resolveLazy_commutes (lid : Nat) : Commutes p (Run.resolveLazy lid) := by
  unfold Run.resolveLazy
  refine @Commutes.bind _ _ _ _ _ inferInstance fun l => ?_
  split <;> infer_instance

instance Run.applyRule_commutes (rule v : Value) : Commutes p (Run.applyRule rule v) := by
  unfold Run.applyRule
  refine @Commutes.bind _ _ _ _ _ inferInstance fun o => ?_
  split <;> infer_instance

end Building

/-! ### Runs set no pending work and drop no context -/

section Run

variable (p : Patch)

instance Commutes.of_context [hp : p.SetsNoContext] (id : Nat) : Commutes p (Store.context id) := by
  refine of_read _ fun s _ => ?_
  cases p with
  | context c x => exact absurd rfl (hp.ne_context c x)
  | _ => rfl

instance Commutes.of_setContext [hp : p.SetsNoContext] (id : Nat) (x : Context) :
    Commutes p (Store.setContext id x) := by
  refine of_change _ fun s h => ?_
  cases p with
  | context c y => exact absurd rfl (hp.ne_context c y)
  | work => exact ⟨h, rfl⟩
  | atLeast n =>
    refine ⟨?_, rfl⟩
    show n ≤ (s.contexts.setIfInBounds id x).size
    rw [Array.size_setIfInBounds]
    exact h

instance Context.setMessages_commutes [p.SetsNoContext] (ctx : Nat) (m : List (String × String)) :
    Commutes p (Context.setMessages ctx m) := by
  unfold Context.setMessages
  infer_instance

instance Context.setMessage_commutes [p.SetsNoContext] (ctx : Nat) (field message : Value) :
    Commutes p (Context.setMessage ctx field message) := by
  unfold Context.setMessage Context.hasField
  dsimp only
  split
  · refine @Commutes.bind _ _ _ _ _ inferInstance fun b => ?_
    split
    · infer_instance
    · split <;> infer_instance
  · infer_instance

instance Run.setBusy_commutes (node : Nat) (busy : Bool) :
    Commutes p (Run.setBusy node busy) := by
  unfold Run.setBusy
  refine @Commutes.bind _ _ _ _ _ inferInstance fun c => ?_
  split <;> infer_instance

instance Run.apply_commutes [p.SetsNoContext] (ctx : Nat) (results : List (String × Value)) :
    Commutes p (Run.apply ctx results) := by
  unfold Run.apply
  infer_instance

instance Run.release_commutes [p.SetsNoContext] (node : Nat) (reentrant : Bool) (ctx : Option Nat) (path : String)
    (nested : Nat) (valid : Value) :
    Commutes p (Run.release node reentrant ctx path nested valid) := by
  unfold Run.release
  refine @Commutes.bind _ _ _ _ _ inferInstance fun _ => ?_
  split
  · infer_instance
  · cases ctx <;> dsimp only <;> infer_instance

instance Run.abandon_commutes [p.SetsNoContext] : ∀ (depth ctx : Nat), Commutes p (Run.abandon depth ctx)
  | 0, _ => by rw [Run.abandon]; infer_instance
  | depth + 1, ctx => by
    have := Run.abandon_commutes depth
    rw [Run.abandon]
    infer_instance

/-- Trying union candidates commutes with `p` when each candidate's check does. -/
instance Run.attempts_commutes {run : Nat → Run Outcome} [∀ node, Commutes p (run node)]
    (all : List (Option Bool × Nat)) (v : Value) (path : String) (i : Nat)
    (rest : List (Option Bool × Nat)) (error : Value) :
    Commutes p (Run.attempts run all v path i rest error) := by
  induction rest generalizing i error with
  | nil => rw [Run.attempts.eq_1]; infer_instance
  | cons candidate more ih =>
    have := ih
    rw [Run.attempts.eq_def]
    dsimp only
    split
    all_goals
      refine @Commutes.bind _ _ _ _ _ inferInstance fun o => ?_
      split <;> infer_instance

/-- Checking array elements commutes with `p` when the element check does. -/
instance Run.elements_commutes {run : Value → String → Run Outcome} [∀ x q, Commutes p (run x q)]
    (element : Nat) (items : List Value) (ctx : Option Nat) (path : String) (i : Nat)
    (rest : List Value) (failed : Value) :
    Commutes p (Run.elements run element items ctx path i rest failed) := by
  induction rest generalizing i failed with
  | nil => rw [Run.elements.eq_1]; infer_instance
  | cons x more ih =>
    have := ih
    rw [Run.elements.eq_2]
    refine @Commutes.bind _ _ _ _ _ inferInstance fun o => ?_
    split <;> infer_instance

/-- Running a schema's fields commutes with `p` when each validator does. -/
instance Run.fields_commutes {run : Validator → Value → Run Outcome}
    [∀ val x, Commutes p (run val x)] (es : List (Value × Value)) (fs : List (String × Field)) :
    Commutes p (Run.fields run es fs) := by
  induction fs with
  | nil => rw [Run.fields.eq_1]; infer_instance
  | cons f rest ih =>
    have := ih
    rw [Run.fields.eq_2]
    infer_instance

/-- At depth `d`, every function of the check runner commutes with `p`. -/
structure RunCommutes (d : Nat) : Prop where
  check : ∀ node v ctx path, Commutes p (Run.check d node v ctx path)
  context : ∀ ctx data, Commutes p (Run.context d ctx data)
  start : ∀ ctx data, Commutes p (Run.start d ctx data)
  validator : ∀ val v ctx, Commutes p (Run.validator d val v ctx)

namespace RunCommutes

variable {p} {d : Nat}

theorem zero : RunCommutes p 0 where
  check _ _ _ _ := by rw [Run.check]; infer_instance
  context _ _ := by rw [Run.context]; infer_instance
  start _ _ := by rw [Run.start]; infer_instance
  validator _ _ _ := by rw [Run.validator]; infer_instance

theorem check_succ [p.SetsNoContext] (ih : RunCommutes p d) (node : Nat) (v : Value) (ctx : Option Nat)
    (path : String) : Commutes p (Run.check (d + 1) node v ctx path) := by
  have := ih.check
  have := ih.context
  rw [Run.check.eq_2]
  refine @Commutes.bind _ _ _ _ _ inferInstance fun c => ?_
  cases c with
  | array e lo hi =>
    dsimp only
    split
    · infer_instance
    · split_ifs <;> infer_instance
  | nested sid owned busy =>
    dsimp only
    -- the two ways of taking a context share the rest of the block
    split
    all_goals
      refine @Commutes.bind _ _ _ _ _ inferInstance fun inner => ?_
      refine @Commutes.bind _ _ _ _ _ inferInstance fun _ => ?_
      refine @Commutes.bind _ _ _ _ _ (@Commutes.tryCatch _ _ _ _ inferInstance fun e => ?_)
        fun answer => ?_
      · refine @Commutes.bind _ _ _ _ _ inferInstance fun _ => ?_
        split <;> infer_instance
      · rcases answer with _ | (valid | k)
        · infer_instance
        · infer_instance
        · cases ctx <;> dsimp only <;> infer_instance
  | lazy lid field spec owner built =>
    dsimp only
    cases built <;> dsimp only <;> infer_instance
  | custom inner rule =>
    dsimp only
    refine @Commutes.bind _ _ _ _ _ inferInstance fun o => ?_
    split
    · split <;> infer_instance
    · infer_instance
  | _ => dsimp only; infer_instance

theorem context_succ [p.SetsNoContext] (ih : RunCommutes p d) (ctx : Nat) (data : Value) :
    Commutes p (Run.context (d + 1) ctx data) := by
  have := ih.start
  rw [Run.context.eq_def]
  dsimp only
  refine @Commutes.bind _ _ _ _ _ inferInstance fun results => ?_
  split <;> infer_instance

theorem start_succ [p.SetsNoContext] (ih : RunCommutes p d) (ctx : Nat) (data : Value) :
    Commutes p (Run.start (d + 1) ctx data) := by
  have := ih.validator
  rw [Run.start.eq_def]
  dsimp only
  refine @Commutes.bind _ _ _ _ _ inferInstance fun c => ?_
  split
  · refine @Commutes.bind _ _ _ _ _ inferInstance fun es => ?_
    refine @Commutes.bind _ _ _ _ _ inferInstance fun sch => ?_
    refine @Commutes.bind _ _ _ _ _ (@Commutes.forIn _ _ _ _ (fun kv m => ?_) _ _) fun m => ?_
    · split <;> infer_instance
    · infer_instance
  · infer_instance

theorem validator_succ (ih : RunCommutes p d) (val : Validator) (v : Value) (ctx : Option Nat) :
    Commutes p (Run.validator (d + 1) val v ctx) := by
  have := ih.check
  rw [Run.validator.eq_def]
  dsimp only
  repeat' split
  all_goals
    refine @Commutes.bind _ _ _ _ _ inferInstance fun o => ?_
    split <;> infer_instance

theorem succ [p.SetsNoContext] (ih : RunCommutes p d) : RunCommutes p (d + 1) where
  check := check_succ ih
  context := context_succ ih
  start := start_succ ih
  validator := validator_succ ih

end RunCommutes

/-- **A run of the check runner, at any depth, commutes with every patch that sets no
context.** -/
theorem Run.commutes [p.SetsNoContext] : ∀ d, RunCommutes p d
  | 0 => .zero
  | d + 1 => (Run.commutes d).succ

instance Run.validate_commutes [p.SetsNoContext] (ctx : Nat) (data : Value) :
    Commutes p (Run.validate ctx data) := by
  have := (Run.commutes p Run.depth).start
  unfold Run.validate
  refine @Commutes.bind _ _ _ _ _ inferInstance fun before => ?_
  refine @Commutes.bind _ _ _ _ _ inferInstance fun results => ?_
  dsimp only
  split <;> infer_instance

end Run

end Schematic
