import Mathlib
import Schematic.Proofs.Coherence

/-!
# Extending a schema

Extending a schema merges a patch into its declarations, normalizes and builds the patched fields
only, and then commits the declarations and the fields together. So an extension is all or
nothing:

* `OnlyAdds m`: run from any store, `m` only adds objects to it, whether it answers or raises.
  Normalizing declarations and building validators are such computations;
* `Schema.merge_by_key`: a mapping patch is laid over the previous declaration key by key, by the
  spelling of the keys, so that a patch naming `array_options` leaves an `arrayOptions` entry in
  place (`extend_ignores_array_options_patch`);
* `Schema.putField`: a patched field keeps its place, a new one goes last, and every other field
  stays as it was (`lookup_foldl_putField`, `names_foldl_putField`);
* **`Schema.extend_all_or_nothing`**: a failed extension only added objects, so the schema is as
  it was; a successful one changed the schema's declarations and fields only, kept every field the
  patch does not name, appended the new names in the patch's order, and left every context and
  check as it was, so every context of the schema validates against the new fields.
-/

namespace Schematic

/-! ### Computations that only add, from any store -/

/-- Run from any store, `m` leaves that store with objects added and every schema, context and
check as it was, whether it answers or raises. Unlike `Adding`, it asks nothing of the store it
starts from. -/
class OnlyAdds {α : Type} (m : Run α) : Prop where
  adds : ∀ s : Store, s.Adds (m.run.run s).2

namespace OnlyAdds

variable {α β : Type}

/-- A computation that leaves the schemas, contexts and checks as they were. -/
theorem of_same {m : Run α}
    (h : ∀ s : Store, (m.run.run s).2.schemas = s.schemas ∧ (m.run.run s).2.contexts = s.contexts ∧
      (m.run.run s).2.checks = s.checks) : OnlyAdds m :=
  ⟨fun s => by
    obtain ⟨h₁, h₂, h₃⟩ := h s
    exact .of_same h₁ h₂ h₃⟩

instance of_pure (a : α) : OnlyAdds (pure a : Run α) := of_same fun _ => ⟨rfl, rfl, rfl⟩

instance of_throw (e : Fault) : OnlyAdds (throw e : Run α) := of_same fun _ => ⟨rfl, rfl, rfl⟩

instance of_read (f : Store → α) : OnlyAdds (Store.read f) := of_same fun _ => ⟨rfl, rfl, rfl⟩

instance bind {x : Run α} {f : α → Run β} [hx : OnlyAdds x] [hf : ∀ a, OnlyAdds (f a)] :
    OnlyAdds (x >>= f) :=
  ⟨fun s => by
    rw [Run.run_bind]
    rcases h : x.run.run s with ⟨r, t⟩
    have hst : s.Adds t := by simpa [h] using hx.adds s
    cases r with
    | ok a => exact hst.trans ((hf a).adds t)
    | error e => exact hst⟩

instance of_ite {c : Prop} [Decidable c] {x y : Run α} [OnlyAdds x] [OnlyAdds y] :
    OnlyAdds (if c then x else y) := by
  split <;> infer_instance

instance mapM {f : α → Run β} [∀ a, OnlyAdds (f a)] : ∀ xs : List α, OnlyAdds (xs.mapM f)
  | [] => of_pure []
  | x :: xs => by
    rw [List.mapM_cons]
    have := mapM (f := f) xs
    infer_instance

instance of_schema (id : Nat) : OnlyAdds (Store.schema id) := of_same fun _ => ⟨rfl, rfl, rfl⟩

instance of_union (id : Nat) : OnlyAdds (Store.union id) := of_same fun _ => ⟨rfl, rfl, rfl⟩

instance of_array (id : Nat) : OnlyAdds (Store.array id) := of_same fun _ => ⟨rfl, rfl, rfl⟩

instance of_shown (v : Value) : OnlyAdds (Store.shown v) := of_same fun _ => ⟨rfl, rfl, rfl⟩

instance of_tagName (t : Tag) : OnlyAdds (Store.tagName t) := of_same fun _ => ⟨rfl, rfl, rfl⟩

instance of_addArray (a : ArrayTag) : OnlyAdds (Store.addArray a) :=
  of_same fun _ => ⟨rfl, rfl, rfl⟩

/-- Adding a check that is not a nested-schema check. -/
theorem of_addCheck {c : Check} (hc : ∀ sid owned busy, c ≠ .nested sid owned busy) :
    OnlyAdds (Store.addCheck c) :=
  ⟨fun s => Store.adds_push_check s hc⟩

instance addMember (p : Primitive) : OnlyAdds (Store.addCheck (.member p)) :=
  of_addCheck (by simp)

instance addBounded (p : Primitive) (lo hi : Value) :
    OnlyAdds (Store.addCheck (.bounded p lo hi)) :=
  of_addCheck (by simp)

instance addPass : OnlyAdds (Store.addCheck .pass) := of_addCheck (by simp)

instance addUnion (cs : List (Option Bool × Nat)) : OnlyAdds (Store.addCheck (.union cs)) :=
  of_addCheck (by simp)

instance addArrayCheck (e : Nat) (lo hi : Option Int) :
    OnlyAdds (Store.addCheck (.array e lo hi)) :=
  of_addCheck (by simp)

instance addLazyCheck (lid : Nat) (field : Option String) (spec : Spec) (owner built : Option Nat) :
    OnlyAdds (Store.addCheck (.lazy lid field spec owner built)) :=
  of_addCheck (by simp)

instance addCustom (inner : Nat) (rule : Value) : OnlyAdds (Store.addCheck (.custom inner rule)) :=
  of_addCheck (by simp)

/-- Adding a nested-schema check with a fresh context of its own. -/
theorem of_addNested (sid : Nat) :
    OnlyAdds (Context.create sid >>= fun owned => Store.addCheck (.nested sid owned false)) :=
  ⟨fun s => Store.adds_push_nested s sid⟩

end OnlyAdds

/-! ### Normalizing and building only add -/

instance Registry.resolve_onlyAdds (id : Nat) (decl : Value) :
    OnlyAdds (Registry.resolve id decl) := by
  unfold Registry.resolve Registry.lookup
  split
  · infer_instance
  · refine @OnlyAdds.bind _ _ _ _ inferInstance fun o => ?_
    split
    · infer_instance
    · split <;> infer_instance

instance Declaration.resolveType_onlyAdds (reg : Option Nat) (field : Option String) (v : Value) :
    OnlyAdds (Declaration.resolveType reg field v) := by
  induction v using Declaration.resolveType.induct with
  | case1 => rw [Declaration.resolveType]; infer_instance
  | case2 => rw [Declaration.resolveType]; infer_instance
  | case3 x hx ih =>
    rw [Declaration.resolveType.eq_3 _ _ _ hx]
    unfold Declaration.newArray
    infer_instance
  | case4 items h => rw [Declaration.resolveType.eq_4 _ _ _ h]; infer_instance
  | case5 id => rw [Declaration.resolveType]; infer_instance
  | case6 decl h1 h2 h3 h4 =>
    rw [Declaration.resolveType.eq_6 _ _ _ h1 h2 h3 h4]
    refine @OnlyAdds.bind _ _ _ _ inferInstance fun o => ?_
    split <;> infer_instance

instance Declaration.normalizeFields_onlyAdds (reg : Option Nat) (decls : List (Value × Value)) :
    OnlyAdds (Declaration.normalizeFields reg decls) := by
  unfold Declaration.normalizeFields
  refine @OnlyAdds.mapM _ _ _ (fun kd => ?_) decls
  obtain ⟨k, d⟩ := kd
  dsimp only
  split
  · refine @OnlyAdds.bind _ _ _ _ ?_ fun _ => inferInstance
    unfold Declaration.normalizeField
    split <;> infer_instance
  · infer_instance

namespace Build

/-- Building a check only adds, from any store: a nested-schema check comes with a fresh
context, and every other check is new. The induction is on the fuel of the build. -/
instance factory_onlyAdds (fuel : Nat) (tag : Tag) (field : Option String) (spec : Spec)
    (owner : Option Nat) (rule : Option Value) : OnlyAdds (factory fuel tag field spec owner rule) := by
  induction fuel generalizing tag field spec owner rule with
  | zero =>
    rw [factory, tagCheck]
    cases rule <;> infer_instance
  | succ fuel ih =>
    -- the candidates of a union are built one after another at the smaller fuel
    have hcands : ∀ specs : List Spec, OnlyAdds (candidateChecks fuel specs field owner) := by
      intro specs
      induction specs with
      | nil => rw [candidateChecks]; infer_instance
      | cons c rest ihc => rw [candidateChecks]; infer_instance
    have htag : OnlyAdds (tagCheck (fuel + 1) tag field spec owner) := by
      cases tag with
      | schema sid => simp only [tagCheck]; exact OnlyAdds.of_addNested sid
      | _ => simp only [tagCheck]; infer_instance
    rw [factory]
    cases rule <;> infer_instance

instance fields_onlyAdds (owner : Option Nat) (specs : List (String × Spec)) :
    OnlyAdds (fields owner specs) := by
  unfold fields validator
  infer_instance

/-- The names of the fields built are the names of the specs they are built from. -/
theorem fields_names {owner : Option Nat} :
    ∀ {specs : List (String × Spec)} {s t : Store} {fs : List (String × Field)},
      (fields owner specs).run.run s = (.ok fs, t) → fs.map (·.1) = specs.map (·.1)
  | [], s, t, fs, h => by
    simp only [fields, List.mapM_nil] at h
    cases h
    rfl
  | (name, spec) :: rest, s, t, fs, h => by
    unfold fields at h
    rw [List.mapM_cons] at h
    obtain ⟨f, u, hf, h⟩ := Run.ok_of_bind h
    obtain ⟨fs', u', hfs, h⟩ := Run.ok_of_bind h
    cases h
    obtain ⟨val, u₁, -, hf⟩ := Run.ok_of_bind hf
    cases hf
    simp [fields_names hfs]

end Build

namespace Declaration

/-- The names of the specs normalized are the keys of the declarations, all of them text. -/
theorem normalizeFields_names {reg : Option Nat} :
    ∀ {decls : List (Value × Value)} {s t : Store} {specs : List (String × Spec)},
      (normalizeFields reg decls).run.run s = (.ok specs, t) →
        decls.map (·.1) = specs.map fun x => .str x.1
  | [], s, t, specs, h => by
    simp only [normalizeFields, List.mapM_nil] at h
    cases h
    rfl
  | (k, d) :: rest, s, t, specs, h => by
    unfold normalizeFields at h
    rw [List.mapM_cons] at h
    obtain ⟨x, u, hx, h⟩ := Run.ok_of_bind h
    obtain ⟨xs, u', hxs, h⟩ := Run.ok_of_bind h
    cases h
    -- a key that is not text is refused, so this one is text
    dsimp only at hx
    split at hx
    · obtain ⟨sp, u₁, -, hx⟩ := Run.ok_of_bind hx
      cases hx
      simp [normalizeFields_names hxs]
    · obtain ⟨_, _, -, hx⟩ := Run.ok_of_bind hx
      cases hx

end Declaration

/-! ### Merging a patch -/

namespace Value

/-- Text is equal to the same text and to nothing else. -/
theorem same_str_iff (a : String) (x : Value) : same (.str a) x = true ↔ x = .str a := by
  cases x <;> simp [same, number?]
  exact eq_comm

/-- See `same_str_iff`. -/
theorem same_str_iff' (a : String) (x : Value) : same x (.str a) = true ↔ x = .str a := by
  cases x <;> simp [same, number?]

theorem lookup_append (k : Value) (xs ys : List (Value × Value)) :
    lookup k (xs ++ ys) = (lookup k xs).or (lookup k ys) := by
  induction xs with
  | nil => rfl
  | cons e xs ih =>
    obtain ⟨k', v⟩ := e
    simp only [List.cons_append, lookup]
    split <;> simp [ih]

/-- Setting a key changes what a text key reads only when it is that key. -/
theorem lookup_insertEntry_str (o : String) (k v : Value) :
    ∀ es : List (Value × Value), lookup (.str o) (insertEntry k v es) =
      if same (.str o) k then some v else lookup (.str o) es
  | [] => by simp [insertEntry, lookup]
  | (k', w) :: rest => by
    by_cases hkk : same k k' = true
    · rw [insertEntry, if_pos hkk]
      by_cases hk : same (.str o) k = true
      · rw [same_str_iff] at hk
        subst hk
        have hself : same (.str o) (.str o) = true := by simp [same]
        simp [lookup, hkk, hself]
      · -- `k'` equals `k`, so it is not the text `o` either
        have hs : same (.str o) k' = false := by
          rw [Bool.eq_false_iff]
          intro h
          rw [same_str_iff] at h
          subst h
          exact hk ((same_str_iff o k).mpr ((same_str_iff' o k).mp hkk))
        simp [lookup, hs, hk]
    · rw [insertEntry, if_neg hkk]
      simp only [lookup, lookup_insertEntry_str o k v rest]
      by_cases hs : same (.str o) k' = true
      · have hk : same (.str o) k = false := by
          rw [Bool.eq_false_iff]
          intro h
          rw [same_str_iff] at h hs
          subst h hs
          exact hkk (by simp [same])
        simp [hs, hk]
      · simp [hs]

/-- Laying entries over a mapping one after another: a text key reads its last entry, or what
the mapping read. -/
theorem lookup_foldl_insertEntry (o : String) :
    ∀ (ms base : List (Value × Value)),
      lookup (.str o) (ms.foldl (fun acc x => insertEntry x.1 x.2 acc) base) =
        (lookup (.str o) ms.reverse).or (lookup (.str o) base)
  | [], base => rfl
  | (k, v) :: rest, base => by
    rw [List.foldl_cons, lookup_foldl_insertEntry o rest, List.reverse_cons, lookup_append,
      lookup_insertEntry_str]
    by_cases hk : same (.str o) k = true
    · simp [lookup, hk]
    · simp [lookup, hk]

end Value

namespace Schema

/-- Reading a previous declaration as options reads nothing from the store. -/
theorem asOptions_run (decl : Value) (s : Store) :
    ∃ base, (asOptions decl).run.run s = (.ok base, s) := by
  unfold asOptions
  split
  · split <;> exact ⟨_, rfl⟩
  · split <;> exact ⟨_, rfl⟩
  · exact ⟨_, rfl⟩

/-- **A patch is merged by the spelling of its keys.** A mapping patch laid over a previous
declaration is a mapping in which every text key reads the patch's last entry under that very
key, or else what the previous declaration, read as options, holds under it. Two spellings of
one option are two keys: a patch naming `array_options` leaves an `arrayOptions` entry of the
previous declaration in place, and `arrayOptions` is read first when the spec is normalized. -/
theorem merge_by_key (previous : Value) (ms : List (Value × Value)) (s : Store) :
    ∃ base es, (asOptions previous).run.run s = (.ok base, s) ∧
      (merge (some previous) (.dict ms)).run.run s = (.ok (.dict es), s) ∧
      ∀ o : String, Value.lookup (.str o) es =
        (Value.lookup (.str o) ms.reverse).or (Value.lookup (.str o) base) := by
  obtain ⟨base, hbase⟩ := asOptions_run previous s
  refine ⟨base, _, hbase, ?_, fun o => Value.lookup_foldl_insertEntry o ms base⟩
  unfold merge
  rw [Run.run_bind_of_eq hbase]
  rfl

end Schema

/-- A text array field declared with `arrayOptions` of minimum 1 and then patched with
`array_options` of minimum 3 keeps the minimum 1: the patch's entry is left over as an extra. -/
theorem extend_ignores_array_options_patch :
    ((do
        let id ← Schema.create (.dict [(.str "tags", .dict [(.str "type", .list [.str "string"]),
          (.str "arrayOptions", .dict [(.str "min", .int 1)])])]) .none none
        Schema.extend id (.dict [(.str "tags", .dict [(.str "array_options",
          .dict [(.str "min", .int 3)])])])
        return ((← Store.schema id).fields.lookup "tags").map fun f =>
          (f.spec.arrayOptions.map (·.min), f.spec.extra) : Run _).run.run Store.initial).1 =
      .ok (some (some (some 1), [("array_options", .dict [(.str "min", .int 3)])])) := by
  cbv

/-! ### Putting fields -/

namespace Schema

/-- Putting a field leaves every other field's entry as it was. -/
theorem lookup_putField_ne {name n : String} (h : n ≠ name) (f : Field) :
    ∀ fs : List (String × Field), (putField name f fs).lookup n = fs.lookup n
  | [] => by simp [putField, List.lookup, beq_eq_false_iff_ne.mpr h]
  | (m, g) :: rest => by
    by_cases hm : m = name
    · subst hm
      simp [putField, List.lookup, beq_eq_false_iff_ne.mpr h]
    · simp [putField, hm, List.lookup, lookup_putField_ne h f rest]

/-- A field put keeps its place, or goes last when it is new. -/
theorem names_putField (name : String) (f : Field) :
    ∀ fs : List (String × Field), (putField name f fs).map (·.1) =
      if name ∈ fs.map (·.1) then fs.map (·.1) else fs.map (·.1) ++ [name]
  | [] => by simp [putField]
  | (m, g) :: rest => by
    by_cases hm : m = name
    · subst hm
      simp [putField]
    · have hne : name ≠ m := Ne.symm hm
      simp only [putField, hm, if_false, List.map_cons, names_putField name f rest, List.mem_cons,
        hne, false_or]
      split <;> simp

/-- Putting fields one after another leaves every field none of them names as it was. -/
theorem lookup_foldl_putField {n : String} :
    ∀ (built fs : List (String × Field)), n ∉ built.map (·.1) →
      (built.foldl (fun acc x => putField x.1 x.2 acc) fs).lookup n = fs.lookup n
  | [], fs, _ => rfl
  | x :: rest, fs, hn => by
    simp only [List.map_cons, List.mem_cons, not_or] at hn
    rw [List.foldl_cons, lookup_foldl_putField rest _ hn.2, lookup_putField_ne hn.1]

/-- Putting fields of distinct names one after another keeps the names there were in their
places and appends the new ones in order. -/
theorem names_foldl_putField :
    ∀ (built fs : List (String × Field)), (built.map (·.1)).Nodup →
      (built.foldl (fun acc x => putField x.1 x.2 acc) fs).map (·.1) =
        fs.map (·.1) ++ (built.map (·.1)).filter (· ∉ fs.map (·.1))
  | [], fs, _ => by simp
  | x :: rest, fs, hnd => by
    simp only [List.map_cons, List.nodup_cons] at hnd
    rw [List.foldl_cons, names_foldl_putField rest _ hnd.2]
    -- the rest names neither `x` nor, among the names there were, anything new
    have hrest : (rest.map (·.1)).filter (· ∉ (putField x.1 x.2 fs).map (·.1)) =
        (rest.map (·.1)).filter (· ∉ fs.map (·.1)) := by
      refine List.filter_congr fun y hy => ?_
      have hyx : y ≠ x.1 := fun h => hnd.1 (h ▸ hy)
      rw [names_putField]
      split <;> simp [hyx]
    rw [hrest, names_putField]
    split <;> simp [*]

end Schema

/-! ### All or nothing -/

/-- When `m` raises, it has only added objects to the store it started from. -/
class Atomic {α : Type} (m : Run α) : Prop where
  adds_of_error : ∀ (s : Store) f t, m.run.run s = (.error f, t) → s.Adds t

namespace OnlyAdds

variable {α β : Type}

instance foldlM {f : β → α → Run β} [∀ b a, OnlyAdds (f b a)] :
    ∀ (xs : List α) (b : β), OnlyAdds (xs.foldlM f b)
  | [], b => of_pure b
  | x :: xs, b => by
    rw [List.foldlM_cons]
    have := fun b => foldlM (f := f) xs b
    infer_instance

end OnlyAdds

namespace Atomic

variable {α β : Type}

instance of_onlyAdds {m : Run α} [h : OnlyAdds m] : Atomic m :=
  ⟨fun s f t hr => by simpa [hr] using h.adds s⟩

/-- A computation that never raises. -/
theorem of_ok {m : Run α} (h : ∀ s, ∃ a t, m.run.run s = (.ok a, t)) : Atomic m :=
  ⟨fun s f t hr => by
    obtain ⟨a, u, hu⟩ := h s
    rw [hu] at hr
    cases hr⟩

instance setSchema (id : Nat) (x : Schema) : Atomic (Store.setSchema id x) :=
  of_ok fun _ => ⟨_, _, rfl⟩

/-- A step that only adds, followed by an atomic rest, is atomic. -/
instance bind {x : Run α} {f : α → Run β} [hx : OnlyAdds x] [hf : ∀ a, Atomic (f a)] :
    Atomic (x >>= f) :=
  ⟨fun s e t hr => by
    rw [Run.run_bind] at hr
    rcases h : x.run.run s with ⟨r, u⟩
    have hsu : s.Adds u := by simpa [h] using hx.adds s
    rw [h] at hr
    cases r with
    | ok a => exact hsu.trans ((hf a).adds_of_error u e t hr)
    | error e' =>
      cases hr
      exact hsu⟩

end Atomic

namespace Schema

instance merge_onlyAdds (previous : Option Value) (patch : Value) :
    OnlyAdds (merge previous patch) := by
  unfold merge asOptions
  split
  · refine @OnlyAdds.bind _ _ _ _ ?_ fun _ => inferInstance
    split
    · split <;> infer_instance
    · split <;> infer_instance
    · infer_instance
  · infer_instance

/-- **An extension is atomic**: before it commits, it only normalizes and builds. -/
instance extend_atomic (id : Nat) (patch : Value) : Atomic (extend id patch) := by
  unfold extend
  dsimp only
  -- the same block follows the patch when it is a mapping, and after the fault when it is not
  split <;> refine @Atomic.bind _ _ _ _ inferInstance fun es => ?_
  all_goals
    refine @Atomic.bind _ _ _ _ inferInstance fun sch => ?_
    refine @Atomic.bind _ _ _ _ (@OnlyAdds.foldlM _ _ _ (fun b a => ?_) _ _) fun decls => ?_
    · obtain ⟨k, d⟩ := a
      infer_instance
    · infer_instance

end Schema

namespace OnlyAdds

/-- A run of a computation that only adds leaves its store with objects added. -/
theorem adds_of_run {α : Type} {m : Run α} [h : OnlyAdds m] {s t : Store} {r : Except Fault α}
    (hr : m.run.run s = (r, t)) : s.Adds t := by
  simpa [hr] using h.adds s

end OnlyAdds

@[simp] theorem Store.run_setSchema (id : Nat) (x : Schema) (s : Store) :
    (Store.setSchema id x).run.run s =
      (.ok (), { s with schemas := s.schemas.setIfInBounds id x }) := rfl

namespace Schema

/-- A block whose first step raises does not answer. -/
theorem Run.throw_bind_not_ok {α β : Type} {e : Fault} {f : α → Run β} {s t : Store} {b : β} :
    (throw e >>= f).run.run s ≠ (.ok b, t) := by
  intro h
  obtain ⟨_, _, h₁, -⟩ := Run.ok_of_bind h
  cases h₁

/-- What an extension that answered did: its patch is a mapping, whose keys name the fields
built for it; until it committed it only added objects, and it committed the schema, read again
as it was, with its declarations merged and the built fields put over its own. -/
theorem extend_ok {id : Nat} {patch : Value} {s t : Store} {S : Schema}
    (hS : s.schemas[id]? = some S) (h : (extend id patch).run.run s = (.ok (), t)) :
    ∃ (es decls : List (Value × Value)) (built : List (String × Field)) (u : Store),
      patch = .dict es ∧ es.map (·.1) = built.map (fun x => Value.str x.1) ∧ s.Adds u ∧
      u.schemas[id]? = some S ∧
      t = { u with
        schemas := u.schemas.setIfInBounds id
          { S with
            declarations := decls
            fields := built.foldl (fun acc x => putField x.1 x.2 acc) S.fields } } := by
  unfold extend at h
  dsimp only at h
  split at h
  case h_2 =>
    -- a patch that is not a mapping is refused before anything runs
    exact absurd h Run.throw_bind_not_ok
  case h_1 es =>
  obtain ⟨es', s₁, h₁, h⟩ := Run.ok_of_bind h
  cases h₁
  obtain ⟨sch, s₂, h₂, h⟩ := Run.ok_of_bind h
  rw [Store.run_schema, Store.at!_of_getElem? hS] at h₂
  cases h₂
  -- merging reads only, normalizing and building only add
  obtain ⟨decls, s₃, h₃, h⟩ := Run.ok_of_bind h
  have ha₃ : s.Adds s₃ := @OnlyAdds.adds_of_run _ _
    (@OnlyAdds.foldlM _ _ _ (fun b a => by obtain ⟨k, d⟩ := a; infer_instance) _ _) _ _ _ h₃
  obtain ⟨specs, s₄, h₄, h⟩ := Run.ok_of_bind h
  obtain ⟨built, s₅, h₅, h⟩ := Run.ok_of_bind h
  have ha₅ : s.Adds s₅ := ha₃.trans ((OnlyAdds.adds_of_run h₄).trans (OnlyAdds.adds_of_run h₅))
  have hid : s₅.schemas[id]? = some S := ha₅.schemas id S hS
  obtain ⟨sch', s₆, h₆, h⟩ := Run.ok_of_bind h
  rw [Store.run_schema, Store.at!_of_getElem? hid] at h₆
  cases h₆
  rw [Store.run_setSchema] at h
  cases h
  -- the keys of the patch are the names of the specs, and of the fields built from them
  have hkeys : es.map (·.1) = specs.map fun x => .str x.1 := by
    rw [← Declaration.normalizeFields_names h₄, List.map_map]
    refine List.map_congr_left fun x _ => ?_
    obtain ⟨k, d⟩ := x
    rfl
  have hnames : built.map (·.1) = specs.map (·.1) := Build.fields_names h₅
  refine ⟨es, decls, built, s₅, rfl, ?_, ha₅, hid, rfl⟩
  rw [hkeys]
  simpa only [List.map_map, Function.comp_def] using congrArg (List.map Value.str) hnames.symm

/-- **Extending a schema is all or nothing.** An extension that raises has only added objects:
the schema, every other schema, every context and every check are as they were. One that
answers was given a mapping whose keys are the names of the fields it touches, all of them text;
it changed the schema's declarations and fields and nothing else of it (its options, registry
and named contexts stay), kept every field the patch does not name with its spec and validator,
kept the old names in their places and appended the new ones in the patch's order, and left
every other schema, every context and every check as it was: the contexts of the schema still
validate against it, now with its new fields. -/
theorem extend_all_or_nothing (id : Nat) (patch : Value) (s : Store) (S : Schema)
    (hS : s.schemas[id]? = some S) :
    (∀ f t, (extend id patch).run.run s = (.error f, t) → s.Adds t) ∧
    (∀ t, (extend id patch).run.run s = (.ok (), t) →
      ∃ (es decls : List (Value × Value)) (fields : List (String × Field)) (names : List String),
      patch = .dict es ∧ es.map (·.1) = names.map .str ∧
      t.schemas[id]? = some { S with declarations := decls, fields } ∧
      (∀ (i : Nat) x, i ≠ id → s.schemas[i]? = some x → t.schemas[i]? = some x) ∧
      (∀ (j : Nat) c, s.contexts[j]? = some c → t.contexts[j]? = some c) ∧
      (∀ (j : Nat) c, s.checks[j]? = some c → t.checks[j]? = some c) ∧
      (∀ name, name ∉ names → fields.lookup name = S.fields.lookup name) ∧
      (names.Nodup →
        fields.map (·.1) = S.fields.map (·.1) ++ names.filter (· ∉ S.fields.map (·.1)))) := by
  refine ⟨fun f t h => (extend_atomic id patch).adds_of_error s f t h, fun t h => ?_⟩
  obtain ⟨es, decls, built, u, rfl, hkeys, hadds, hid, rfl⟩ := extend_ok hS h
  have hlt : id < u.schemas.size := (Array.getElem?_eq_some_iff.mp hid).1
  refine ⟨es, decls, _, built.map (·.1), rfl, ?_, ?_, fun i x hi hx => ?_, hadds.contexts,
    hadds.checks, fun name hn => lookup_foldl_putField built S.fields hn,
    names_foldl_putField built S.fields⟩
  · rw [hkeys, List.map_map]
    rfl
  · exact Array.getElem?_setIfInBounds_self_of_lt hlt
  · rw [Array.getElem?_setIfInBounds_ne (Ne.symm hi)]
    exact hadds.schemas i x hx

end Schema

/-- A schema with one optional text field `a`, declared as `"string"`. -/
def textFieldSchema : Schema where
  options := {}
  registry := none
  declarations := [(.str "a", .str "string")]
  fields := [("a", ⟨default, ⟨some "a", 0, false, none, false, false⟩⟩)]
  named := []

/-- The built-in registry, `textFieldSchema` and one context of it. -/
def textFieldStore : Store :=
  { Store.initial with
    schemas := #[textFieldSchema]
    contexts := #[{ schema := 0 }]
    checks := #[.member .string] }

/-- Extending `textFieldSchema` with an integer field `b` appends `b` after `a`. -/
theorem extend_appends_field :
    textFieldStore.schemas[0]? = some textFieldSchema ∧
      ((Schema.extend 0 (.dict [(.str "b", .str "integer")])).run.run textFieldStore).1 = .ok () ∧
      (((Schema.extend 0 (.dict [(.str "b", .str "integer")])).run.run textFieldStore).2.schemas[0]?.map
        fun x => x.fields.map (·.1)) = some ["a", "b"] := by
  have hok : (Schema.extend 0 (.dict [(.str "b", .str "integer")])).run.run textFieldStore =
      (.ok (), ((Schema.extend 0 (.dict [(.str "b", .str "integer")])).run.run textFieldStore).2) :=
    Prod.ext (by cbv) rfl
  obtain ⟨es, decls, fields, names, hpatch, hkeys, hat, -, -, -, -, hnames⟩ :=
    (Schema.extend_all_or_nothing 0 _ textFieldStore textFieldSchema rfl).2 _ hok
  cases hpatch
  have hb : names = ["b"] := by
    simpa using hkeys.symm
  subst hb
  refine ⟨rfl, congrArg Prod.fst hok, ?_⟩
  rw [hat, Option.map_some, hnames (by simp)]
  rfl

end Schematic
