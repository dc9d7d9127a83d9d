import Mathlib
import Schematic.Proofs.Registries
import Schematic.Declaration

/-!
# Reading declarations

A field's `type` declaration is a tag, a schema, a key bound in a registry, or a one-element list
`[d]` standing for an array of `d`; its whole declaration is a spec, a mapping of options with a
`type` key, or a bare `type` declaration. This module says what `Declaration.resolveType` and
`Declaration.normalizeField` do with every declaration.

* `Declaration.baseTag` and `Declaration.Resolves`: the declarations that name a tag, as
  `b` inside `k` one-element lists (`Value.wrap`) for a `b` that names a tag by itself;
* `Declaration.resolveType_wrap`: such a declaration resolves to `k` new array tags around
  `b`'s tag, added innermost first and named after the level below (`Tag.arrayLevels`);
* `Declaration.resolveType_refused`: every other declaration is refused with the store left as
  it was, as an unknown type exactly when it is text inside lists;
* `Declaration.normalizeField_bare` and `Declaration.normalizeField_options`: a bare
  declaration is its type alone, and a mapping with a `type` key is read as options, with its
  type resolved and the entries under other names kept as extras;
* **`Declaration.declarations_resolve`** gathers these in `Declaration.Resolving`.
-/

namespace Schematic

/-- The declaration `[[…[b]…]]`: `b` inside `k` one-element lists. -/
def Value.wrap (b : Value) : Nat → Value
  | 0 => b
  | k + 1 => .list [b.wrap k]

namespace Value

theorem wrap_ne_none {b : Value} (hb : b ≠ .none) : ∀ k, b.wrap k ≠ .none
  | 0 => hb
  | _ + 1 => by simp [wrap]

/-- Text inside one-element lists is a list exactly one level up. -/
theorem str_wrap_eq_list {name : String} {k : Nat} {xs : List Value} :
    (Value.str name).wrap k = .list xs ↔ ∃ j, k = j + 1 ∧ xs = [(Value.str name).wrap j] := by
  cases k with
  | zero => simp [wrap]
  | succ j => simp [wrap, eq_comm]

theorem list_eq_str_wrap_iff {x : Value} :
    (∃ name k, Value.list [x] = (Value.str name).wrap k) ↔
      ∃ name k, x = (Value.str name).wrap k := by
  constructor
  · rintro ⟨name, k, hk⟩
    obtain ⟨j, -, hj⟩ := str_wrap_eq_list.1 hk.symm
    exact ⟨name, j, List.singleton_inj.1 hj⟩
  · rintro ⟨name, k, rfl⟩
    exact ⟨name, k + 1, rfl⟩

end Value

namespace Tag

/-- The name of `[[…[t]…]]` nested `k` deep, for a tag `t` named `name`. -/
def arrayName (name : String) : Nat → String
  | 0 => name
  | k + 1 => "arrayOf(" ++ arrayName name k ++ ")"

/-- The tag `[[…[t]…]]` nested `k` deep stands for when its array tags are added after the `n`
a store holds: `t` itself, or the outermost array tag. -/
def nestedIn (t : Tag) (n : Nat) : Nat → Tag
  | 0 => t
  | k + 1 => .arrayOf (n + k)

/-- The array tags `[[…[t]…]]` nested `k` deep adds after the `n` a store holds, innermost
first: each holds the tag of the level below it and is named after it. -/
def arrayLevels (t : Tag) (n : Nat) (name : String) : Nat → Array ArrayTag
  | 0 => #[]
  | k + 1 => (arrayLevels t n name k).push ⟨t.nestedIn n k, arrayName name (k + 1)⟩

@[simp] theorem size_arrayLevels (t : Tag) (n : Nat) (name : String) (k : Nat) :
    (t.arrayLevels n name k).size = k := by
  induction k with
  | zero => rfl
  | succ k ih => simp [arrayLevels, ih]

theorem getElem?_arrayLevels (t : Tag) (n : Nat) (name : String) {j k : Nat} (hj : j < k) :
    (t.arrayLevels n name k)[j]? = some ⟨t.nestedIn n j, arrayName name (j + 1)⟩ := by
  induction k with
  | zero => omega
  | succ k ih =>
    rw [arrayLevels, Array.getElem?_push, size_arrayLevels]
    by_cases hjk : j = k
    · subst hjk
      simp
    · rw [if_neg hjk]
      exact ih (by omega)

end Tag

namespace Declaration

/-- The tag a declaration that is no list names by itself in registry `r`: a tag itself, a
schema's own tag, or the tag a lookup of the declaration finds along `r`'s chain of parents.
None names no tag. -/
def baseTag (s : Store) (r : Nat) (d : Value) : Option Tag :=
  match d with
  | .none | .list _ => none
  | .tag t => some t
  | .schema id => some (.schema id)
  | _ => Registry.lookupWith s d r (s.registries.size + 1)

/-- The declarations that resolve in registry `r`: a declaration that names a tag by itself,
inside any number of one-element lists. -/
def Resolves (s : Store) (r : Nat) (d : Value) : Prop :=
  ∃ b k t, d = b.wrap k ∧ baseTag s r b = some t

variable {registry : Option Nat} {field : Option String} {s : Store}

/-- The declarations `resolveType` hands to the registry: all but none, lists and schemas. -/
structure ByRegistry (d : Value) : Prop where
  not_none : d ≠ .none
  not_list : ∀ xs, d ≠ .list xs
  not_schema : ∀ id, d ≠ .schema id

/-- A declaration the registry reads to a tag resolves to that tag. -/
theorem resolveType_of_resolve {d : Value} {t : Tag} {s' : Store} (hd : ByRegistry d)
    (h : (Registry.resolve (registry.getD Registry.builtins) d).run.run s = (.ok (.tag t), s')) :
    (resolveType registry field d).run.run s = (.ok t, s') := by
  rw [resolveType.eq_6 _ _ _ hd.not_none (fun x hx => hd.not_list _ hx) hd.not_list
    hd.not_schema, Run.run_bind_of_eq h]
  rfl

theorem resolveType_of_resolve_error {d : Value} {e : Fault} {s' : Store} (hd : ByRegistry d)
    (h : (Registry.resolve (registry.getD Registry.builtins) d).run.run s = (.error e, s')) :
    (resolveType registry field d).run.run s = (.error e, s') := by
  rw [resolveType.eq_6 _ _ _ hd.not_none (fun x hx => hd.not_list _ hx) hd.not_list
    hd.not_schema, Run.run_bind, h]

/-- A read that is not a tag is an invalid type, shown as the store names it. -/
theorem resolveType_of_resolve_other {d v : Value} {s' : Store} (hd : ByRegistry d)
    (hv : ∀ t, v ≠ .tag t)
    (h : (Registry.resolve (registry.getD Registry.builtins) d).run.run s = (.ok v, s')) :
    (resolveType registry field d).run.run s =
      (.error (.invalidType field (d.shown s'.namingIn)), s') := by
  rw [resolveType.eq_6 _ _ _ hd.not_none (fun x hx => hd.not_list _ hx) hd.not_list
    hd.not_schema, Run.run_bind_of_eq h]
  split
  · exact absurd rfl (hv _)
  · rw [Run.run_bind_of_eq (Store.run_shown _ _)]
    rfl

/-- A declaration that names a tag by itself resolves to it and changes nothing. -/
theorem resolveType_base {d : Value} {t : Tag}
    (h : baseTag s (registry.getD Registry.builtins) d = some t) :
    (resolveType registry field d).run.run s = (.ok t, s) := by
  cases d <;> simp only [baseTag, reduceCtorEq, Option.some.injEq] at h
  case tag t' =>
    subst h
    exact resolveType_of_resolve ⟨by simp, by simp, by simp⟩ (Registry.resolve_tag _ _)
  case schema id =>
    subst h
    rfl
  all_goals
    refine resolveType_of_resolve ⟨?_, ?_, ?_⟩ (Registry.resolve_of_lookup ?_ h) <;> simp

theorem run_newArray (e : Tag) (s : Store) :
    (newArray e).run.run s = (.ok (.arrayOf s.arrays.size),
      { s with arrays := s.arrays.push ⟨e, "arrayOf(" ++ s.tagNameIn e ++ ")"⟩ }) := rfl

/-- The outermost tag of the levels added so far is named after all of them. -/
theorem tagNameIn_nestedIn (s : Store) (t : Tag) (k : Nat) :
    Store.tagNameIn { s with arrays := s.arrays ++ t.arrayLevels s.arrays.size (s.tagNameIn t) k }
      (t.nestedIn s.arrays.size k) = Tag.arrayName (s.tagNameIn t) k := by
  cases k with
  | zero => simp [Tag.arrayLevels, Tag.nestedIn, Tag.arrayName]
  | succ k =>
    simp only [Tag.nestedIn, Store.tagNameIn, Store.at!]
    rw [Array.getElem?_append_right (by omega), Nat.add_sub_cancel_left,
      Tag.getElem?_arrayLevels _ _ _ (by omega)]
    rfl

/-- `[[…[b]…]]` nested `k` deep, for a `b` that names a tag by itself, resolves to `k` new array
tags around `b`'s tag, added to the store innermost first. -/
theorem resolveType_wrap {b : Value} {t : Tag}
    (h : baseTag s (registry.getD Registry.builtins) b = some t) (k : Nat) :
    (resolveType registry field (b.wrap k)).run.run s =
      (.ok (t.nestedIn s.arrays.size k),
        { s with arrays := s.arrays ++ t.arrayLevels s.arrays.size (s.tagNameIn t) k }) := by
  have hb : b ≠ .none := by
    rintro rfl
    simp [baseTag] at h
  induction k with
  | zero =>
    rw [Tag.arrayLevels, Array.append_empty]
    exact resolveType_base h
  | succ k ih =>
    rw [Value.wrap, resolveType.eq_3 _ _ _ (Value.wrap_ne_none hb k), Run.run_bind_of_eq ih,
      run_newArray, tagNameIn_nestedIn]
    simp only [Tag.arrayLevels, Tag.nestedIn, Tag.arrayName, Array.size_append,
      Tag.size_arrayLevels, Array.append_push]

/-- `[["integer"]]` adds two array tags, each named after the level below it. -/
example : ((resolveType none none (.list [.list [.str "integer"]])).run.run
    Store.initial).2.arrays.toList.map (·.name) =
      ["arrayOf(integer)", "arrayOf(arrayOf(integer))"] := by
  cbv

theorem Resolves.list {r : Nat} {x : Value} (h : Resolves s r x) : Resolves s r (.list [x]) := by
  obtain ⟨b, k, t, rfl, hb⟩ := h
  exact ⟨b, k + 1, t, rfl, hb⟩

/-- What a refusal of a declaration is told by: its class names an unknown type exactly for
text inside one-element lists, and is a schema definition error otherwise. -/
def RefusalClass (d : Value) (e : Fault) : Prop :=
  (e.className = "UnknownTypeError" ↔ ∃ name k, d = (Value.str name).wrap k) ∧
    (e.className = "SchemaDefinitionError" ∨ e.className = "UnknownTypeError")

theorem refusalClass_of_definition {d : Value} {e : Fault}
    (he : e.className = "SchemaDefinitionError") (hd : ∀ name k, d ≠ (Value.str name).wrap k) :
    RefusalClass d e := by
  refine ⟨⟨fun h => absurd (he.symm.trans h) (by decide), ?_⟩, .inl he⟩
  rintro ⟨name, k, hk⟩
  exact absurd hk (hd name k)

/-- A declaration that does not resolve is refused and changes nothing: as an unknown type
exactly when it is text inside one-element lists, and as a schema definition error otherwise. -/
theorem resolveType_refused {d : Value} (hd : ¬ Resolves s (registry.getD Registry.builtins) d) :
    ∃ e, (resolveType registry field d).run.run s = (.error e, s) ∧ RefusalClass d e := by
  induction d using resolveType.induct with
  | case1 =>
    refine ⟨_, rfl, refusalClass_of_definition rfl fun name k hk => ?_⟩
    exact Value.wrap_ne_none (by simp) k hk.symm
  | case2 =>
    refine ⟨_, rfl, refusalClass_of_definition rfl fun name k hk => ?_⟩
    obtain ⟨j, -, hj⟩ := Value.str_wrap_eq_list.1 hk.symm
    exact Value.wrap_ne_none (by simp) j (List.singleton_inj.1 hj).symm
  | case3 x hx ih =>
    obtain ⟨e, he, hiff, hclass⟩ := ih fun h => hd h.list
    refine ⟨e, ?_, hiff.trans Value.list_eq_str_wrap_iff.symm, hclass⟩
    rw [resolveType.eq_3 _ _ _ hx, Run.run_bind, he]
  | case4 items hitems =>
    refine ⟨_, by rw [resolveType.eq_4 _ _ _ hitems]; rfl,
      refusalClass_of_definition rfl fun name k hk => ?_⟩
    obtain ⟨j, -, hj⟩ := Value.str_wrap_eq_list.1 hk.symm
    exact hitems _ hj
  | case5 id => exact absurd ⟨.schema id, 0, .schema id, rfl, rfl⟩ hd
  | case6 decl h1 _ h2 h3 =>
    have hby : ByRegistry decl := ⟨h1, fun xs hx => h2 xs hx, fun id hx => h3 id hx⟩
    have htag : ∀ t, decl ≠ .tag t := fun t ht =>
      hd ⟨decl, 0, t, rfl, by simp [ht, baseTag]⟩
    -- what is left reads through a lookup, and the lookup finds nothing
    have hnone : Registry.lookupWith s decl (registry.getD Registry.builtins)
        (s.registries.size + 1) = none := by
      cases hfind : Registry.lookupWith s decl (registry.getD Registry.builtins)
        (s.registries.size + 1) with
      | none => rfl
      | some t =>
        refine absurd ⟨decl, 0, t, rfl, ?_⟩ hd
        cases decl <;> simp_all [baseTag]
    by_cases hstr : ∃ name, decl = .str name
    · obtain ⟨name, rfl⟩ := hstr
      refine ⟨_, resolveType_of_resolve_error hby (Registry.resolve_str_of_unbound hnone),
        ⟨iff_of_true rfl ⟨name, 0, rfl⟩, .inr rfl⟩⟩
    · simp only [not_exists] at hstr
      refine ⟨_, resolveType_of_resolve_other hby htag
        (Registry.resolve_of_unbound htag hstr hnone), refusalClass_of_definition rfl ?_⟩
      rintro name (_ | k) hk
      · exact hstr name hk
      · exact hby.not_list _ hk

/-! ### Normalizing a field -/

/-- The spec of a field declared by its type alone. -/
def typeOnly (t : Tag) : Spec := { type := t, min := .none, max := .none }

theorem normalizeField_spec (sp : Spec) :
    (normalizeField registry field (.spec sp)).run.run s = (.ok sp, s) := rfl

/-- Every false declaration is refused, and nothing changes. -/
theorem normalizeField_falsy {d : Value} (hd : d.truthy = false) :
    (normalizeField registry field d).run.run s = (.error (.emptySpec field), s) := by
  rw [normalizeField.eq_def]
  split
  · simp [Value.truthy] at hd
  · simp only [hd, Bool.not_false, if_true]
    rfl

theorem ofEntries_typeOnly (t : Tag) :
    SpecOf.ofEntries t [(.str "type", .tag t)] = (typeOnly t, 0) := by
  simp [SpecOf.ofEntries, entryAt, Value.lookup, Value.same, extrasOf, SpecOf.optionNames,
    optionalWith, typeOnly]

/-- Anything but a mapping with a type key is read as the options `{"type": d}`. -/
theorem optionsOf_bare {d : Value}
    (hmap : ∀ es, d = .dict es → Value.hasKey (.str "type") es = false) :
    optionsOf d = [(.str "type", d)] := by
  unfold optionsOf
  split
  · next es => simp [hmap es rfl]
  · rfl

/-- A declaration that is neither a spec nor a mapping with a type key declares its type
alone: it normalizes to the spec of the tag it resolves to, with every other option unset. -/
theorem normalizeField_bare {d : Value} (hd : d.truthy = true) (hsp : ∀ sp, d ≠ .spec sp)
    (hmap : ∀ es, d = .dict es → Value.hasKey (.str "type") es = false) :
    (normalizeField registry field d).run.run s =
      (typeOnly <$> resolveType registry field d).run.run s := by
  rw [normalizeField.eq_def]
  split
  · exact absurd rfl (hsp _)
  have hself : Value.same (.str "type") (.str "type") = true := by simp [Value.same]
  simp only [hd, Bool.not_true, Bool.false_eq_true, if_false, optionsOf_bare hmap, Value.lookup,
    Value.insertEntry, hself, if_true, Option.getD_some, ofEntries_typeOnly, gt_iff_lt,
    Nat.lt_irrefl]
  rw [Run.run_bind, Run.run_map]
  rcases (resolveType registry field d).run.run s with ⟨_ | t, s'⟩ <;> rfl

/-- Setting a key keeps every entry whose key is not equal to it. -/
theorem mem_insertEntry {k k' v w : Value} {es : List (Value × Value)} (h : (k', w) ∈ es)
    (hk : Value.same k k' = false) : (k', w) ∈ Value.insertEntry k v es := by
  induction es with
  | nil => cases h
  | cons e rest ih =>
    obtain ⟨k'', w''⟩ := e
    rw [Value.insertEntry]
    rcases List.mem_cons.1 h with he | hr
    · cases he
      simp [hk]
    · split
      · exact List.mem_cons_of_mem _ hr
      · exact List.mem_cons_of_mem _ (ih hr)

/-- An entry under a text key that is not used is kept as an extra. -/
theorem mem_extrasOf {es : List (Value × Value)} {used : List String} {name : String} {v : Value}
    (h : (.str name, v) ∈ es) (hu : name ∉ used) : (name, v) ∈ (extrasOf es used).1 := by
  induction es using List.reverseRecOn with
  | nil => cases h
  | append_singleton es e ih =>
    obtain ⟨k, w⟩ := e
    unfold extrasOf at ih ⊢
    rw [List.foldl_append, List.foldl_cons, List.foldl_nil]
    generalize List.foldl _ ([], 0) es = acc at ih ⊢
    obtain ⟨acc, errs⟩ := acc
    dsimp only
    rcases List.mem_append.1 h with h | h
    · -- an entry already kept stays kept
      have := ih h
      split
      · split <;> simp [this]
      · exact this
    · obtain ⟨rfl, rfl⟩ := Prod.mk.inj (List.mem_singleton.1 h)
      simp [hu]

/-- The extras of a spec are the entries under names that are no option, one of the two
spellings of the array options left among them. -/
theorem ofEntries_extra (t : Tag) (es : List (Value × Value)) :
    ∃ key, (key = "arrayOptions" ∨ key = "array_options") ∧
      (SpecOf.ofEntries t es).1.extra = (extrasOf es (key :: SpecOf.optionNames)).1 := by
  cases h : entryAt es "arrayOptions" <;> simp [SpecOf.ofEntries, h]

/-- Reading options after their type is set keeps that type, and keeps as extras the entries
under every name that is no option. -/
theorem ofEntries_insertType (t : Tag) (es : List (Value × Value)) :
    (SpecOf.ofEntries t (Value.insertEntry (.str "type") (.tag t) es)).1.type = t ∧
    ∀ name v, (.str name, v) ∈ es →
      name ∉ "arrayOptions" :: "array_options" :: SpecOf.optionNames →
      (name, v) ∈ (SpecOf.ofEntries t (Value.insertEntry (.str "type") (.tag t) es)).1.extra := by
  refine ⟨rfl, fun name v hv hname => ?_⟩
  obtain ⟨key, hkey, hextra⟩ := ofEntries_extra t (Value.insertEntry (.str "type") (.tag t) es)
  -- the entry is not the type's, so setting the type keeps it
  have hsame : Value.same (.str "type") (.str name) = false := by
    simp only [List.mem_cons, SpecOf.optionNames, not_or] at hname
    simp [Value.same, Ne.symm hname.2.2.1]
  rw [hextra]
  have hsub :
      key :: SpecOf.optionNames ⊆ "arrayOptions" :: "array_options" :: SpecOf.optionNames := by
    rcases hkey with rfl | rfl <;> simp +contextual [List.subset_def]
  exact mem_extrasOf (mem_insertEntry hv hsame) fun hmem => hname (hsub hmem)

theorem ne_nil_of_hasKey {k : Value} {es : List (Value × Value)} (hk : Value.hasKey k es = true) :
    es ≠ [] := by
  rintro rfl
  simp [Value.hasKey, Value.lookup] at hk

section Options

variable {es : List (Value × Value)} {s' : Store}

/-- A mapping with a type key whose type is refused is refused the same way. -/
theorem normalizeField_options_error {e : Fault} (hk : Value.hasKey (.str "type") es = true)
    (he : (resolveType registry field ((Value.lookup (.str "type") es).getD .none)).run.run s =
      (.error e, s')) :
    (normalizeField registry field (.dict es)).run.run s = (.error e, s') := by
  rw [normalizeField.eq_def]
  simp only [Value.truthy, optionsOf, hk, if_true, Bool.not_not, List.isEmpty_iff,
    ne_nil_of_hasKey hk, if_false]
  rw [Run.run_bind, he]

/-- A mapping with a type key whose type resolves and whose options all read normalizes to
their reading. -/
theorem normalizeField_options_ok {t : Tag} (hk : Value.hasKey (.str "type") es = true)
    (ht : (resolveType registry field ((Value.lookup (.str "type") es).getD .none)).run.run s =
      (.ok t, s'))
    (hread : (SpecOf.ofEntries t (Value.insertEntry (.str "type") (.tag t) es)).2 = 0) :
    (normalizeField registry field (.dict es)).run.run s =
      (.ok (SpecOf.ofEntries t (Value.insertEntry (.str "type") (.tag t) es)).1, s') := by
  rw [normalizeField.eq_def]
  simp only [Value.truthy, optionsOf, hk, if_true, Bool.not_not, List.isEmpty_iff,
    ne_nil_of_hasKey hk, if_false]
  rw [Run.run_bind_of_eq ht, hread, if_neg (Nat.lt_irrefl 0)]
  rfl

/-- A mapping with a type key is read as options: when it normalizes, its type entry resolves
to the spec's type, and every entry under a name that is no option is kept as an extra. -/
theorem normalizeField_options {sp : Spec} (hk : Value.hasKey (.str "type") es = true)
    (h : (normalizeField registry field (.dict es)).run.run s = (.ok sp, s')) :
    (resolveType registry field ((Value.lookup (.str "type") es).getD .none)).run.run s =
      (.ok sp.type, s') ∧
    ∀ name v, (.str name, v) ∈ es →
      name ∉ "arrayOptions" :: "array_options" :: SpecOf.optionNames → (name, v) ∈ sp.extra := by
  rw [normalizeField.eq_def] at h
  simp only [Value.truthy, optionsOf, hk, if_true, Bool.not_not, List.isEmpty_iff,
    ne_nil_of_hasKey hk, if_false] at h
  obtain ⟨t, s'', ht, hrest⟩ := Run.ok_of_bind h
  -- the options were read without errors, so the spec is their reading
  have hsp : sp = (SpecOf.ofEntries t (Value.insertEntry (.str "type") (.tag t) es)).1 ∧
      s' = s'' := by
    split at hrest
    · rw [Run.run_bind] at hrest
      cases hrest
    · cases hrest
      exact ⟨rfl, rfl⟩
  obtain ⟨rfl, rfl⟩ := hsp
  obtain ⟨htype, hextra⟩ := ofEntries_insertType t es
  exact ⟨htype ▸ ht, hextra⟩

end Options

/-! ### Declarations in every store -/

/-- How the declarations of a field are read in a store, through the registry `registry` names
(the built-ins when none). A declaration that names a tag inside one-element lists resolves to
fresh array tags around that tag; every other declaration is refused and changes nothing. A spec
stays itself, a false declaration is refused, a bare declaration is its type alone, and a mapping
with a type key is read as options: refused when its type is, normalized to their reading when
its type resolves and every option reads, and then with its type resolved and its unknown
entries kept. -/
structure Resolving (s : Store) (registry : Option Nat) (field : Option String) : Prop where
  resolves : ∀ b t k, baseTag s (registry.getD Registry.builtins) b = some t →
    (resolveType registry field (b.wrap k)).run.run s =
      (.ok (t.nestedIn s.arrays.size k),
        { s with arrays := s.arrays ++ t.arrayLevels s.arrays.size (s.tagNameIn t) k })
  refuses : ∀ d, ¬ Resolves s (registry.getD Registry.builtins) d →
    ∃ e, (resolveType registry field d).run.run s = (.error e, s) ∧ RefusalClass d e
  keeps_spec : ∀ sp, (normalizeField registry field (.spec sp)).run.run s = (.ok sp, s)
  rejects_falsy : ∀ d, d.truthy = false →
    (normalizeField registry field d).run.run s = (.error (.emptySpec field), s)
  bare : ∀ d, d.truthy = true → (∀ sp, d ≠ .spec sp) →
    (∀ es, d = .dict es → Value.hasKey (.str "type") es = false) →
    (normalizeField registry field d).run.run s =
      (typeOnly <$> resolveType registry field d).run.run s
  options_refused : ∀ es e s', Value.hasKey (.str "type") es = true →
    (resolveType registry field ((Value.lookup (.str "type") es).getD .none)).run.run s =
      (.error e, s') →
    (normalizeField registry field (.dict es)).run.run s = (.error e, s')
  options_read : ∀ es t s', Value.hasKey (.str "type") es = true →
    (resolveType registry field ((Value.lookup (.str "type") es).getD .none)).run.run s =
      (.ok t, s') →
    (SpecOf.ofEntries t (Value.insertEntry (.str "type") (.tag t) es)).2 = 0 →
    (normalizeField registry field (.dict es)).run.run s =
      (.ok (SpecOf.ofEntries t (Value.insertEntry (.str "type") (.tag t) es)).1, s')
  options : ∀ es sp s', Value.hasKey (.str "type") es = true →
    (normalizeField registry field (.dict es)).run.run s = (.ok sp, s') →
    (resolveType registry field ((Value.lookup (.str "type") es).getD .none)).run.run s =
      (.ok sp.type, s') ∧
    ∀ name v, (.str name, v) ∈ es →
      name ∉ "arrayOptions" :: "array_options" :: SpecOf.optionNames → (name, v) ∈ sp.extra

/-- Declarations are read as `Resolving` says, in every store and through every registry. -/
theorem declarations_resolve (s : Store) (registry : Option Nat) (field : Option String) :
    Resolving s registry field where
  resolves _ _ k h := resolveType_wrap h k
  refuses _ hd := resolveType_refused hd
  keeps_spec := normalizeField_spec
  rejects_falsy _ hd := normalizeField_falsy hd
  bare _ hd hsp hmap := normalizeField_bare hd hsp hmap
  options_refused _ _ _ hk he := normalizeField_options_error hk he
  options_read _ _ _ hk ht hread := normalizeField_options_ok hk ht hread
  options _ _ _ hk h := normalizeField_options hk h

end Declaration

end Schematic
