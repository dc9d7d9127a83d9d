import Mathlib
import Schematic.Proofs.Extending
import Schematic.Term.Eval

/-!
# Distinct field names

A mapping of the host never has two equal keys, and the field names of a schema, read off the
keys of the mapping it was declared with, are distinct. A mapping here is a list of entries, so
the distinctness is a property of how mappings are made:

* `Value.KeysDistinct es`: every key of `es` differs from each key before it, in the direction
  `Value.insertEntry` compares them;
* **`Value.keysDistinct_ofPairs`**: a mapping built from pairs, as every mapping a term writes is
  (`Term.eval_dict_keysDistinct`), has distinct keys;
* **`Schema.create_names_nodup`**: a schema built from a mapping with distinct keys has distinct
  field names, one for each key in the mapping's order (`Schema.create_names`);
* **`Schema.extend_names_nodup`**: extending a schema keeps its field names distinct, whatever
  the patch, since a patched field keeps its place and only a new name is appended;
* `Value.nodup_of_keysDistinct`: the keys of a patch with distinct keys are distinct names.

These discharge the distinctness that the agreement of a batch result with a context and the
order of names after an extension assume, for every schema built and extended from the mappings
terms write.
-/

namespace Schematic

namespace Value

/-- Every key differs from each key before it, as the keys of a mapping of the host do; the
relation is oriented as `insertEntry` compares a new key with those there were. -/
def KeysDistinct (es : List (Value × Value)) : Prop :=
  (es.map (·.1)).Pairwise fun a b => same b a = false

/-- The keys after setting a key are the keys there were and the key set. -/
theorem mem_keys_insertEntry {k v b : Value} : ∀ {es : List (Value × Value)},
    b ∈ (insertEntry k v es).map (·.1) → b ∈ es.map (·.1) ∨ b = k
  | [], hb => by
    simp only [insertEntry, List.map_cons, List.map_nil, List.mem_singleton] at hb
    exact .inr hb
  | (k', w) :: rest, hb => by
    rw [insertEntry] at hb
    split at hb
    · exact .inl (by simpa using hb)
    · simp only [List.map_cons, List.mem_cons] at hb
      rcases hb with rfl | hb
      · exact .inl List.mem_cons_self
      · rcases mem_keys_insertEntry hb with hb | rfl
        · exact .inl (List.mem_cons_of_mem _ hb)
        · exact .inr rfl

/-- Setting a key keeps the keys distinct: an equal key is overwritten in place, and a new key,
which differs from every key there was, goes last. -/
theorem keysDistinct_insertEntry {k v : Value} : ∀ {es : List (Value × Value)},
    KeysDistinct es → KeysDistinct (insertEntry k v es)
  | [], _ => List.pairwise_singleton _ _
  | (k', w) :: rest, hd => by
    unfold KeysDistinct at hd ⊢
    simp only [List.map_cons, List.pairwise_cons] at hd
    rw [Value.insertEntry]
    split
    · -- the key was there: only its value changes
      simpa only [List.map_cons, List.pairwise_cons] using hd
    · rename_i hkk
      simp only [List.map_cons, List.pairwise_cons]
      refine ⟨fun b hb => ?_, keysDistinct_insertEntry hd.2⟩
      rcases mem_keys_insertEntry hb with hb | rfl
      · exact hd.1 b hb
      · simpa using hkk

/-- Laying pairs over a mapping with distinct keys keeps them distinct. -/
theorem keysDistinct_foldl_insertEntry : ∀ (ps acc : List (Value × Value)), KeysDistinct acc →
    KeysDistinct (ps.foldl (fun acc x => insertEntry x.1 x.2 acc) acc)
  | [], _, hd => hd
  | _ :: ps, _, hd => keysDistinct_foldl_insertEntry ps _ (keysDistinct_insertEntry hd)

/-- **A mapping built from pairs has distinct keys.** -/
theorem keysDistinct_ofPairs (ps : List (Value × Value)) : KeysDistinct (ofPairs ps) :=
  keysDistinct_foldl_insertEntry ps [] List.Pairwise.nil

/-- Text keys that differ from each key before them are distinct names. -/
theorem nodup_of_keysDistinct {es : List (Value × Value)} {names : List String}
    (hkeys : es.map (·.1) = names.map .str) (hd : KeysDistinct es) : names.Nodup := by
  unfold KeysDistinct at hd
  rw [hkeys, List.pairwise_map] at hd
  refine hd.imp fun {a b} hab heq => ?_
  subst heq
  -- a text is equal to itself
  have hself : same (.str a) (.str a) = true := (same_str_iff a _).mpr rfl
  rw [hself] at hab
  cases hab

end Value

/-- **Every mapping a term writes has distinct keys.** -/
theorem Term.eval_dict_keysDistinct {ps : List (Term × Term)} {s t : Store} {v : Value}
    (h : (Term.eval (.dict ps)).run.run s = (.ok v, t)) :
    ∃ es, v = .dict es ∧ Value.KeysDistinct es := by
  rw [Term.eval.eq_def] at h
  obtain ⟨pairs, u, -, h⟩ := Run.ok_of_bind h
  cases h
  exact ⟨_, rfl, Value.keysDistinct_ofPairs pairs⟩

namespace Schema

/-- The end of building a schema: the schema is added, its declarations normalized, its fields
built and committed. The fields are named by the keys of the declarations, in order. -/
theorem create_tail_names {x : Schema} {decls : List (Value × Value)} {registry : Option Nat}
    {s t : Store} {id : Nat}
    (h : (do
      let id ← Store.addSchema x
      let specs ← Declaration.normalizeFields registry decls
      let built ← Build.fields (some id) specs
      let s ← Store.schema id
      Store.setSchema id { s with fields := built }
      pure id : Run Nat).run.run s = (.ok id, t)) :
    decls.map (·.1) = (Store.fieldNamesIn t id).map .str := by
  obtain ⟨sid, s₁, h₁, h⟩ := Run.ok_of_bind h
  cases h₁
  obtain ⟨specs, s₂, h₂, h⟩ := Run.ok_of_bind h
  obtain ⟨built, s₃, h₃, h⟩ := Run.ok_of_bind h
  obtain ⟨sch, s₄, h₄, h⟩ := Run.ok_of_bind h
  rw [Store.run_schema] at h₄
  cases h₄
  obtain ⟨_, s₅, h₅, h⟩ := Run.ok_of_bind h
  rw [Store.run_setSchema] at h₅
  cases h₅
  cases h
  -- the schema added first is still there after normalizing and building
  have hadds := (OnlyAdds.adds_of_run h₂).trans (OnlyAdds.adds_of_run h₃)
  have hlt : s.schemas.size < s₃.schemas.size :=
    (Array.getElem?_eq_some_iff.mp (hadds.schemas s.schemas.size x (by simp))).1
  rw [Declaration.normalizeFields_names h₂, Store.fieldNamesIn, Store.at!_setIfInBounds,
    if_pos ⟨rfl, hlt⟩]
  simp [Build.fields_names h₃]

/-- **A schema built from a mapping has a field for each key, in the mapping's order.** Whatever
its options are, once they are read without fault the build ends the same way. -/
theorem create_names {es : List (Value × Value)} {options : Value} {registry : Option Nat}
    {s t : Store} {id : Nat} (h : (create (.dict es) options registry).run.run s = (.ok id, t)) :
    es.map (·.1) = (Store.fieldNamesIn t id).map .str := by
  unfold create at h
  dsimp only at h
  split at h
  -- an empty mapping is refused
  next => exact absurd h Run.throw_bind_not_ok
  rw [Run.run_bind_of_eq (Run.run_pure es s)] at h
  split at h
  next =>
    split at h
    next =>
      rw [Run.run_bind_of_eq (Run.run_pure _ s)] at h
      split at h
      -- options that do not validate are refused
      next => exact absurd h Run.throw_bind_not_ok
      exact create_tail_names h
    -- options that are no mapping are refused
    next => exact absurd h Run.throw_bind_not_ok
  next =>
    rw [Run.run_bind_of_eq (Run.run_pure _ s)] at h
    split at h
    next => exact absurd h Run.throw_bind_not_ok
    exact create_tail_names h

/-- **A schema built from a mapping with distinct keys has distinct field names.** -/
theorem create_names_nodup {es : List (Value × Value)} {options : Value} {registry : Option Nat}
    {s t : Store} {id : Nat} (hd : Value.KeysDistinct es)
    (h : (create (.dict es) options registry).run.run s = (.ok id, t)) :
    (Store.fieldNamesIn t id).Nodup :=
  Value.nodup_of_keysDistinct (create_names h) hd

/-- Putting a field keeps distinct names distinct: it replaces the field of its name, or goes
last under a name that is new. -/
theorem nodup_putField (name : String) (f : Field) {fs : List (String × Field)}
    (h : (fs.map (·.1)).Nodup) : ((putField name f fs).map (·.1)).Nodup := by
  rw [names_putField]
  split
  · exact h
  · rename_i hnew
    exact h.append (List.nodup_singleton name) (List.disjoint_singleton.mpr hnew)

theorem nodup_foldl_putField : ∀ (built : List (String × Field)) {fs : List (String × Field)},
    (fs.map (·.1)).Nodup → ((built.foldl (fun acc x => putField x.1 x.2 acc) fs).map (·.1)).Nodup
  | [], _, h => h
  | x :: rest, _, h => nodup_foldl_putField rest (nodup_putField x.1 x.2 h)

/-- **Extending a schema keeps its field names distinct**, whatever the patch: a patched field
keeps its place, and only a name the schema did not have is appended. -/
theorem extend_names_nodup {id : Nat} {patch : Value} {s t : Store} {S : Schema}
    (hS : s.schemas[id]? = some S) (hnames : (Store.fieldNamesIn s id).Nodup)
    (h : (extend id patch).run.run s = (.ok (), t)) : (Store.fieldNamesIn t id).Nodup := by
  obtain ⟨es, decls, built, u, -, -, -, hid, rfl⟩ := extend_ok hS h
  have hlt : id < u.schemas.size := (Array.getElem?_eq_some_iff.mp hid).1
  rw [Store.fieldNamesIn, Store.at!_of_getElem? hS] at hnames
  rw [Store.fieldNamesIn, Store.at!_setIfInBounds, if_pos ⟨rfl, hlt⟩]
  exact nodup_foldl_putField built hnames

end Schema

end Schematic
