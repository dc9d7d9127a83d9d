import Mathlib
import Schematic.Proofs.Settling

/-!
# Only data that is not a mapping is refused as a structure

A batch result refuses data that is neither none nor a mapping with a `StructureError`, and a
nested schema's run refuses a value that is not a mapping the same way, a refusal the nested
check catches and reports as `invalidType`. No other fault of the model is raised as a
`StructureError`: building terms, declarations, schemas and checks, calling rules and classes,
comparing, sorting and decoding values, and writing messages all raise faults of other classes.
So a `StructureError` never escapes a run on a mapping, and validating a record raises one
exactly when the record is neither none nor a mapping (`Batch.create_structureError_iff`).

`Calm m` says that `m` never raises a `StructureError`. As for `Commutes`, it is a class with an
instance for each way computations are put together, so that instance search proves it for a
straight-line block. The pure computations that may fail have their own class
(`Except.Within`), generic in the faults, so that sorting is seen to raise only what its
comparison raises.
-/

namespace Schematic

/-- Whether a fault is raised as something other than a `StructureError`. -/
@[reducible] def Fault.calm : Fault → Bool
  | .notMapping _ _ => false
  | _ => true

/-- A fault that is not a `StructureError`. -/
abbrev Fault.Calm (e : Fault) : Prop := e.calm = true

/-- The one fault raised as a `StructureError` is a refusal of data that is not a mapping. -/
theorem Fault.calm_iff (e : Fault) : e.Calm ↔ e.className ≠ "StructureError" := by
  -- unfolding through `eq_def` spares the splitter of the many-armed match
  cases e with
  | nestedObjects wrapped => cases wrapped <;> simp [Fault.className.eq_def]
  | nestedObjectTypes wrapped => cases wrapped <;> simp [Fault.className.eq_def]
  | _ => simp [Fault.className.eq_def]

/-- Every fault but a refusal of data that is not a mapping is calm. -/
theorem Fault.calm_of_ne {e : Fault} (h : ∀ schema typeName, e = .notMapping schema typeName → False) :
    e.Calm := by
  cases e
  all_goals first
    | rfl
    | exact absurd rfl (h _ _)

/-- A test that computes to `true`; instance search finds it by computing. -/
class IsTrue (b : Bool) : Prop where
  holds : b = true

instance : IsTrue true := ⟨rfl⟩

/-! ### Pure computations -/

/-- Every fault `r` can give satisfies `P`. -/
class Except.Within {ε α : Type} (P : ε → Prop) (r : Except ε α) : Prop where
  within : ∀ e, r = .error e → P e

namespace Except.Within

variable {ε α β : Type} {P : ε → Prop}

instance ok (a : α) : Within P (.ok a : Except ε α) := ⟨fun _ h => by cases h⟩

instance pure (a : α) : Within P (Pure.pure a : Except ε α) := ⟨fun _ h => by cases h⟩

instance error_calm (e : Fault) [IsTrue e.calm] : Within Fault.Calm (.error e : Except Fault α) :=
  ⟨fun _ h => by cases h; exact IsTrue.holds⟩

instance throw_calm (e : Fault) [IsTrue e.calm] :
    Within Fault.Calm (throw e : Except Fault α) :=
  ⟨fun _ h => by cases h; exact IsTrue.holds⟩

instance bind {r : Except ε α} {f : α → Except ε β} [hr : Within P r] [hf : ∀ a, Within P (f a)] :
    Within P (r >>= f) := by
  refine ⟨fun e he => ?_⟩
  cases r with
  | error e' =>
    cases he
    exact hr.within _ rfl
  | ok a => exact (hf a).within e he

instance map {r : Except ε α} {f : α → β} [hr : Within P r] : Within P (f <$> r) := by
  refine ⟨fun e he => ?_⟩
  cases r with
  | error e' =>
    cases he
    exact hr.within _ rfl
  | ok a => cases he

instance except_map {r : Except ε α} {f : α → β} [hr : Within P r] : Within P (r.map f) := by
  refine ⟨fun e he => ?_⟩
  cases r with
  | error e' =>
    cases he
    exact hr.within _ rfl
  | ok a => cases he

instance ite {c : Prop} [Decidable c] {r r' : Except ε α} [Within P r] [Within P r'] :
    Within P (if c then r else r') := by
  split <;> infer_instance

instance mapM {f : α → Except ε β} [∀ a, Within P (f a)] :
    ∀ xs : List α, Within P (xs.mapM f)
  | [] => pure []
  | x :: xs => by
    rw [List.mapM_cons]
    have := mapM (f := f) xs
    infer_instance

instance foldlM {f : β → α → Except ε β} [∀ b a, Within P (f b a)] :
    ∀ (xs : List α) (b : β), Within P (xs.foldlM f b)
  | [], b => pure b
  | x :: xs, b => by
    rw [List.foldlM_cons]
    have := foldlM (f := f) xs
    infer_instance

instance forIn {f : α → β → Except ε (ForInStep β)} [∀ a b, Within P (f a b)] :
    ∀ (xs : List α) (b : β), Within P (forIn xs b f)
  | [], b => pure b
  | x :: xs, b => by
    rw [List.forIn_cons]
    have := forIn (f := f) xs
    refine @bind _ _ _ _ _ _ inferInstance fun r => ?_
    cases r <;> infer_instance

end Except.Within

/-! ### The pure computations a run may call -/

section Pure

open Except.Within

/-- Comparing values raises only faults of comparison, never a `StructureError`. -/
instance Value.compareWith_calm (op : Comparison) (a b : Value) :
    Except.Within Fault.Calm (Value.compareWith op a b) := by
  refine Value.compareWith.induct (fun a b => Except.Within Fault.Calm (Value.compareWith op a b))
    (fun xs ys => Except.Within Fault.Calm (Value.compareItems op xs ys))
    ?_ ?_ ?_ ?_ ?_ ?_ ?_ ?_ ?_ ?_ ?_ ?_ ?_ ?_ ?_ ?_ a b
  all_goals intros
  all_goals first
    | rw [Value.compareWith.eq_def]
    | rw [Value.compareItems.eq_def]
  all_goals try dsimp only
  all_goals repeat' split
  all_goals try infer_instance
  -- what is left are the branches of the last case that its own hypotheses exclude
  all_goals exfalso; simp_all

instance Primitive.boundedCode_calm (p : Primitive) (lo hi v : Value) :
    Except.Within Fault.Calm (p.boundedCode lo hi v) := by
  unfold Primitive.boundedCode
  split
  · infer_instance
  · split
    · infer_instance
    · dsimp only
      split <;> split <;> infer_instance

instance Value.lacks_holds (v : Value) (member : String) : IsTrue (v.lacks member).calm :=
  ⟨by unfold Value.lacks; split <;> rfl⟩

instance Rule.length_calm (v : Value) : Except.Within Fault.Calm (Rule.length v) := by
  unfold Rule.length
  split <;> infer_instance

instance Rule.contains_calm (container v : Value) :
    Except.Within Fault.Calm (Rule.contains container v) := by
  unfold Rule.contains
  repeat' split
  all_goals infer_instance

instance Rule.hasPrefix_calm (v head : Value) : Except.Within Fault.Calm (Rule.hasPrefix v head) := by
  unfold Rule.hasPrefix
  repeat' split
  all_goals try infer_instance
  -- a tuple of prefixes is tried one by one
  refine @foldlM _ _ _ _ _ (fun found h => ?_) _ _
  split <;> infer_instance

instance Value.iterate_calm (v : Value) : Except.Within Fault.Calm v.iterate := by
  unfold Value.iterate
  split <;> infer_instance

instance Value.addPair_calm (acc : Nat × List (Value × Value)) (x : Value) :
    Except.Within Fault.Calm (Value.addPair acc x) := by
  unfold Value.addPair
  repeat' split
  all_goals infer_instance

instance Value.toDict_calm (v : Value) : Except.Within Fault.Calm v.toDict := by
  unfold Value.toDict
  split
  · infer_instance
  · refine @bind _ _ _ _ _ _ inferInstance fun xs => ?_
    refine @bind _ _ _ _ _ _ inferInstance fun r => ?_
    obtain ⟨_, es⟩ := r
    infer_instance

instance Construct.truncate_calm (bits : UInt64) :
    Except.Within Fault.Calm (Construct.truncate bits) := by
  unfold Construct.truncate
  split <;> infer_instance

instance Construct.intToFloat_calm (n : Int) : Except.Within Fault.Calm (Construct.intToFloat n) := by
  unfold Construct.intToFloat
  dsimp only
  split <;> infer_instance

instance Construct.toInt_calm (v : Value) : Except.Within Fault.Calm (Construct.toInt v) := by
  unfold Construct.toInt
  repeat' split
  all_goals infer_instance

instance Construct.toFloat_calm (v : Value) : Except.Within Fault.Calm (Construct.toFloat v) := by
  unfold Construct.toFloat
  repeat' split
  all_goals infer_instance

instance Construct.byteOf_calm (v : Value) : Except.Within Fault.Calm (Construct.byteOf v) := by
  unfold Construct.byteOf
  repeat' split
  all_goals infer_instance

instance Construct.zeroBytes_calm (n : Int) : Except.Within Fault.Calm (Construct.zeroBytes n) := by
  unfold Construct.zeroBytes
  infer_instance

instance Construct.toBytes_calm (v : Value) : Except.Within Fault.Calm (Construct.toBytes v) := by
  unfold Construct.toBytes
  repeat' split
  all_goals infer_instance

instance Construct.yearOnly_holds (n : Int) : IsTrue (Construct.yearOnly n).calm :=
  ⟨by unfold Construct.yearOnly; split_ifs <;> rfl⟩

/-- Text read as the packed state of a date fails only for a character beyond Latin-1. -/
theorem Construct.latinState_calm {kind : String} {size : Nat} {s : String} {f : Fault}
    (h : Construct.latinState kind size s = some (.error f)) : f.Calm := by
  unfold Construct.latinState at h
  dsimp only at h
  split_ifs at h <;> cases h
  rfl

instance Construct.toDate_calm (v : Value) : Except.Within Fault.Calm (Construct.toDate v) := by
  unfold Construct.toDate
  repeat' split
  all_goals try infer_instance
  exact ⟨fun _ he => by cases he; exact Construct.latinState_calm ‹_›⟩

instance Construct.toDateTime_calm (v : Value) :
    Except.Within Fault.Calm (Construct.toDateTime v) := by
  unfold Construct.toDateTime
  repeat' split
  all_goals try infer_instance
  exact ⟨fun _ he => by cases he; exact Construct.latinState_calm ‹_›⟩

instance Construct.toSet_calm (v : Value) : Except.Within Fault.Calm (Construct.toSet v) := by
  unfold Construct.toSet
  refine @bind _ _ _ _ _ _ inferInstance fun xs => ?_
  refine @bind _ _ _ _ _ _ (@forIn _ _ _ _ _ (fun x r => ?_) _ _) fun _ => inferInstance
  split <;> infer_instance

instance Marker.call_calm (n : Naming) (m : Marker) (v : Value) :
    Except.Within Fault.Calm (m.call n v) := by
  unfold Marker.call
  split <;> infer_instance

instance Base64.finish_calm (r : Base64.Reader) : Except.Within Fault.Calm r.finish := by
  unfold Base64.Reader.finish
  split <;> infer_instance

instance Base64.readFrom_calm (r : Base64.Reader) (cs : List Char) :
    Except.Within Fault.Calm (Base64.readFrom r cs) := by
  induction cs generalizing r with
  | nil => rw [Base64.readFrom]; infer_instance
  | cons c cs ih =>
    rw [Base64.readFrom]
    repeat' split
    all_goals infer_instance

instance Base64.decode?_calm (s : String) : Except.Within Fault.Calm (Base64.decode? s) := by
  unfold Base64.decode?
  infer_instance

end Pure

/-! ### Sorting raises only what comparing raises -/

namespace Sorting

section Within

variable {α ε : Type} [Inhabited α] {P : ε → Prop} (lt : α → α → Except ε Bool)
  [∀ a b, Except.Within P (lt a b)]

open Except.Within

instance runFrom_within (a : Array α) (down : Bool) (hi : Nat) :
    ∀ fuel i, Except.Within P (runFrom lt a down hi fuel i)
  | 0, i => by rw [runFrom]; infer_instance
  | fuel + 1, i => by
    have := runFrom_within a down hi fuel
    rw [runFrom]
    infer_instance

instance countRun_within (a : Array α) (lo hi : Nat) :
    Except.Within P (countRun lt a lo hi) := by
  unfold countRun
  infer_instance

instance insertionPoint_within (a : Array α) (pivot : α) :
    ∀ fuel l r, Except.Within P (insertionPoint lt a pivot fuel l r)
  | 0, l, r => by rw [insertionPoint]; infer_instance
  | fuel + 1, l, r => by
    have := insertionPoint_within a pivot fuel
    rw [insertionPoint]
    infer_instance

instance binarySort_within (lo hi : Nat) :
    ∀ fuel a start, Except.Within P (binarySort lt lo hi fuel a start)
  | 0, a, start => by rw [binarySort]; infer_instance
  | fuel + 1, a, start => by
    have := binarySort_within lo hi fuel
    rw [binarySort]
    infer_instance

instance searchLeft_within (a : Array α) (base : Nat) (key : α) :
    ∀ fuel lo hi, Except.Within P (searchLeft lt a base key fuel lo hi)
  | 0, lo, hi => by rw [searchLeft]; infer_instance
  | fuel + 1, lo, hi => by
    have := searchLeft_within a base key fuel
    rw [searchLeft]
    infer_instance

instance searchRight_within (a : Array α) (base : Nat) (key : α) :
    ∀ fuel lo hi, Except.Within P (searchRight lt a base key fuel lo hi)
  | 0, lo, hi => by rw [searchRight]; infer_instance
  | fuel + 1, lo, hi => by
    have := searchRight_within a base key fuel
    rw [searchRight]
    infer_instance

instance gallopUp_within (test : Nat → Except ε Bool) [∀ o, Except.Within P (test o)]
    (maxOfs : Nat) : ∀ fuel last ofs, Except.Within P (gallopUp test maxOfs fuel last ofs)
  | 0, last, ofs => by rw [gallopUp]; infer_instance
  | fuel + 1, last, ofs => by
    have := gallopUp_within test maxOfs fuel
    rw [gallopUp]
    infer_instance

instance gallopLeft_within (a : Array α) (key : α) (base n hint : Nat) :
    Except.Within P (gallopLeft lt a key base n hint) := by
  unfold gallopLeft
  dsimp only
  infer_instance

instance gallopRight_within (a : Array α) (key : α) (base n hint : Nat) :
    Except.Within P (gallopRight lt a key base n hint) := by
  unfold gallopRight
  dsimp only
  infer_instance

instance lowSteps_within : ∀ fuel (m : LowMerge α) aWins bWins,
    Except.Within P (lowSteps lt fuel m aWins bWins)
  | 0, m, aWins, bWins => by rw [lowSteps]; infer_instance
  | fuel + 1, m, aWins, bWins => by
    have := lowSteps_within fuel
    rw [lowSteps]
    infer_instance

instance lowGallop_within : ∀ fuel (m : LowMerge α), Except.Within P (lowGallop lt fuel m)
  | 0, m => by rw [lowGallop]; infer_instance
  | fuel + 1, m => by
    have := lowGallop_within fuel
    rw [lowGallop]
    infer_instance

instance lowRounds_within : ∀ fuel (m : LowMerge α), Except.Within P (lowRounds lt fuel m)
  | 0, m => by rw [lowRounds]; infer_instance
  | fuel + 1, m => by
    have := lowRounds_within fuel
    rw [lowRounds]
    repeat' (first | infer_instance | split | refine @bind _ _ _ _ _ _ ?_ fun _ => ?_)

instance highSteps_within : ∀ fuel (m : HighMerge α) aWins bWins,
    Except.Within P (highSteps lt fuel m aWins bWins)
  | 0, m, aWins, bWins => by rw [highSteps]; infer_instance
  | fuel + 1, m, aWins, bWins => by
    have := highSteps_within fuel
    rw [highSteps]
    infer_instance

instance highGallop_within : ∀ fuel (m : HighMerge α), Except.Within P (highGallop lt fuel m)
  | 0, m => by rw [highGallop]; infer_instance
  | fuel + 1, m => by
    have := highGallop_within fuel
    rw [highGallop]
    infer_instance

instance highRounds_within : ∀ fuel (m : HighMerge α), Except.Within P (highRounds lt fuel m)
  | 0, m => by rw [highRounds]; infer_instance
  | fuel + 1, m => by
    have := highRounds_within fuel
    rw [highRounds]
    repeat' (first | infer_instance | split | refine @bind _ _ _ _ _ _ ?_ fun _ => ?_)

instance mergeLow_within (left right : Array α) (threshold : Nat) :
    Except.Within P (mergeLow lt left right threshold) := by
  unfold mergeLow
  infer_instance

instance mergeHigh_within (left right : Array α) (threshold : Nat) :
    Except.Within P (mergeHigh lt left right threshold) := by
  unfold mergeHigh
  infer_instance

instance mergeAt_within (st : State α) (i : Nat) : Except.Within P (mergeAt lt st i) := by
  unfold mergeAt
  dsimp only
  infer_instance

instance collapse_within (p : Nat) : ∀ fuel (st : State α), Except.Within P (collapse lt p fuel st)
  | 0, st => by rw [collapse]; infer_instance
  | fuel + 1, st => by
    have := collapse_within p fuel
    rw [collapse]
    infer_instance

instance collapseAll_within : ∀ fuel (st : State α), Except.Within P (collapseAll lt fuel st)
  | 0, st => by rw [collapseAll]; infer_instance
  | fuel + 1, st => by
    have := collapseAll_within fuel
    rw [collapseAll]
    infer_instance

instance runs_within (total minrun : Nat) :
    ∀ fuel (st : State α) lo, Except.Within P (runs lt total minrun fuel st lo)
  | 0, st, lo => by rw [runs]; infer_instance
  | fuel + 1, st, lo => by
    have := runs_within total minrun fuel
    rw [runs]
    repeat' (first | infer_instance | split | refine @bind _ _ _ _ _ _ ?_ fun _ => ?_ | dsimp only)

/-- **Sorting raises only what its comparison raises.** -/
instance sort_within (keys : Array α) : Except.Within P (sort lt keys) := by
  unfold sort
  infer_instance

end Within

end Sorting

/-! ### Computations on the store -/

/-- `m` never raises a `StructureError`. -/
class Calm {α : Type} (m : Run α) : Prop where
  calm : ∀ s e t, m.run.run s = (.error e, t) → e.Calm

namespace Calm

variable {α β : Type}

/-- A computation that never fails is calm. -/
theorem of_ok {m : Run α} (h : ∀ s, ∃ a t, m.run.run s = (.ok a, t)) : Calm m := by
  refine ⟨fun s e t he => ?_⟩
  obtain ⟨a, u, hm⟩ := h s
  rw [hm] at he
  cases he

instance pure (a : α) : Calm (Pure.pure a : Run α) := of_ok fun s => ⟨a, s, rfl⟩

/-- Raising a fault that is not a `StructureError`. -/
theorem throw_of {e : Fault} (he : e.Calm) : Calm (throw e : Run α) := by
  refine ⟨fun s e' t h => ?_⟩
  rw [Run.run_throw] at h
  cases h
  exact he

instance throw (e : Fault) [h : IsTrue e.calm] : Calm (throw e : Run α) := throw_of h.holds

instance bind {x : Run α} {f : α → Run β} [hx : Calm x] [hf : ∀ a, Calm (f a)] :
    Calm (x >>= f) := by
  refine ⟨fun s e t h => ?_⟩
  rw [Run.run_bind] at h
  rcases hr : x.run.run s with ⟨r, u⟩
  rw [hr] at h
  cases r with
  | ok a => exact (hf a).calm u e t h
  | error e' =>
    cases h
    exact hx.calm _ _ _ hr

instance map {x : Run α} {f : α → β} [hx : Calm x] : Calm (f <$> x) := by
  refine ⟨fun s e t h => ?_⟩
  rw [Run.run_map] at h
  rcases hr : x.run.run s with ⟨r, u⟩
  rw [hr] at h
  cases r with
  | ok a => cases h
  | error e' =>
    cases h
    exact hx.calm _ _ _ hr

/-- A handler needs to be calm only on the faults the computation it guards raises. -/
theorem tryCatch_of_fails {x : Run α} {h : Fault → Run α}
    (hh : ∀ s e t, x.run.run s = (.error e, t) → Calm (h e)) : Calm (tryCatch x h) := by
  refine ⟨fun s e t he => ?_⟩
  rw [Run.run_tryCatch] at he
  rcases hr : x.run.run s with ⟨r, u⟩
  rw [hr] at he
  cases r with
  | ok a => cases he
  | error e' => exact (hh s e' u hr).calm u e t he

instance tryCatch {x : Run α} {h : Fault → Run α} [hh : ∀ e, Calm (h e)] :
    Calm (tryCatch x h) :=
  tryCatch_of_fails fun _ e _ _ => hh e

instance ite {c : Prop} [Decidable c] {x y : Run α} [Calm x] [Calm y] :
    Calm (if c then x else y) := by
  split <;> infer_instance

instance mapM {f : α → Run β} [∀ a, Calm (f a)] : ∀ xs : List α, Calm (xs.mapM f)
  | [] => pure []
  | x :: xs => by
    rw [List.mapM_cons]
    have := mapM (f := f) xs
    infer_instance

instance forIn {f : α → β → Run (ForInStep β)} [∀ a b, Calm (f a b)] :
    ∀ (xs : List α) (b : β), Calm (forIn xs b f)
  | [], b => pure b
  | x :: xs, b => by
    rw [List.forIn_cons]
    have := forIn (f := f) xs
    refine @bind _ _ _ _ inferInstance fun r => ?_
    cases r <;> infer_instance

instance lift (r : Except Fault α) [hr : Except.Within Fault.Calm r] : Calm (Rule.lift r) := by
  cases r with
  | ok a => exact pure a
  | error e => exact throw_of (hr.within e rfl)

/-! Reading and writing the store never fails. -/

instance naming : Calm Store.naming := of_ok fun _ => ⟨_, _, rfl⟩
instance schema (id : Nat) : Calm (Store.schema id) := of_ok fun _ => ⟨_, _, rfl⟩
instance check (id : Nat) : Calm (Store.check id) := of_ok fun _ => ⟨_, _, rfl⟩
instance union (id : Nat) : Calm (Store.union id) := of_ok fun _ => ⟨_, _, rfl⟩
instance array (id : Nat) : Calm (Store.array id) := of_ok fun _ => ⟨_, _, rfl⟩
instance lazyTag (id : Nat) : Calm (Store.lazyTag id) := of_ok fun _ => ⟨_, _, rfl⟩
instance context (id : Nat) : Calm (Store.context id) := of_ok fun _ => ⟨_, _, rfl⟩
instance schemaName (id : Nat) : Calm (Store.schemaName id) := of_ok fun _ => ⟨_, _, rfl⟩
instance schemaNamed (name : String) : Calm (Store.schemaNamed? name) := of_ok fun _ => ⟨_, _, rfl⟩
instance registryNamed (name : String) : Calm (Store.registryNamed? name) :=
  of_ok fun _ => ⟨_, _, rfl⟩
instance plain (v : Value) : Calm (Store.plain v) := of_ok fun _ => ⟨_, _, rfl⟩
instance shown (v : Value) : Calm (Store.shown v) := of_ok fun _ => ⟨_, _, rfl⟩
instance tagName (t : Tag) : Calm (Store.tagName t) := of_ok fun _ => ⟨_, _, rfl⟩
instance lookup (id : Nat) (key : Value) : Calm (Registry.lookup id key) := of_ok fun _ => ⟨_, _, rfl⟩
instance setCheck (id : Nat) (x : Check) : Calm (Store.setCheck id x) := of_ok fun _ => ⟨_, _, rfl⟩
instance setLazy (id : Nat) (x : LazyTag) : Calm (Store.setLazy id x) := of_ok fun _ => ⟨_, _, rfl⟩
instance setSchema (id : Nat) (x : Schema) : Calm (Store.setSchema id x) := of_ok fun _ => ⟨_, _, rfl⟩
instance setContext (id : Nat) (x : Context) : Calm (Store.setContext id x) :=
  of_ok fun _ => ⟨_, _, rfl⟩
instance addCheck (x : Check) : Calm (Store.addCheck x) := of_ok fun _ => ⟨_, _, rfl⟩
instance addArray (x : ArrayTag) : Calm (Store.addArray x) := of_ok fun _ => ⟨_, _, rfl⟩
instance addUnion (x : UnionTag) : Calm (Store.addUnion x) := of_ok fun _ => ⟨_, _, rfl⟩
instance addLazy (x : LazyTag) : Calm (Store.addLazy x) := of_ok fun _ => ⟨_, _, rfl⟩
instance addSchema (x : Schema) : Calm (Store.addSchema x) := of_ok fun _ => ⟨_, _, rfl⟩
instance addBatch (x : Batch) : Calm (Store.addBatch x) := of_ok fun _ => ⟨_, _, rfl⟩
instance freshForeign : Calm Store.freshForeign := of_ok fun _ => ⟨_, _, rfl⟩
instance create (sid : Nat) : Calm (Context.create sid) := of_ok fun _ => ⟨_, _, rfl⟩

end Calm

/-! ### Building raises no `StructureError` -/

section Building

open Calm

instance Registry.resolve_calm (id : Nat) (decl : Value) : Calm (Registry.resolve id decl) := by
  unfold Registry.resolve
  split
  · infer_instance
  · refine @Calm.bind _ _ _ _ inferInstance fun o => ?_
    repeat' split
    all_goals infer_instance

instance Declaration.newArray_calm (t : Tag) : Calm (Declaration.newArray t) := by
  unfold Declaration.newArray
  infer_instance

instance Declaration.resolveType_calm (reg : Option Nat) (field : Option String) (v : Value) :
    Calm (Declaration.resolveType reg field v) := by
  induction v using Declaration.resolveType.induct with
  | case1 => rw [Declaration.resolveType]; infer_instance
  | case2 => rw [Declaration.resolveType]; infer_instance
  | case3 x hx ih => rw [Declaration.resolveType.eq_3 _ _ _ hx]; infer_instance
  | case4 items h => rw [Declaration.resolveType.eq_4 _ _ _ h]; infer_instance
  | case5 id => rw [Declaration.resolveType]; infer_instance
  | case6 decl h1 h2 h3 h4 =>
    rw [Declaration.resolveType.eq_6 _ _ _ h1 h2 h3 h4]
    refine @Calm.bind _ _ _ _ inferInstance fun o => ?_
    split <;> infer_instance

instance Declaration.normalizeField_calm (reg : Option Nat) (field : Option String) (decl : Value) :
    Calm (Declaration.normalizeField reg field decl) := by
  unfold Declaration.normalizeField
  split <;> infer_instance

instance Declaration.normalizeFields_calm (reg : Option Nat) (decls : List (Value × Value)) :
    Calm (Declaration.normalizeFields reg decls) := by
  unfold Declaration.normalizeFields
  refine @Calm.mapM _ _ _ (fun kd => ?_) decls
  obtain ⟨k, d⟩ := kd
  dsimp only
  split <;> infer_instance

instance Declaration.newUnion_calm (reg : Option Nat) (cands : List Value) :
    Calm (Declaration.newUnion reg cands) := by
  unfold Declaration.newUnion
  infer_instance

instance Rule.call_calm (r : Rule) (v : Value) : Calm (Rule.call r v) := by
  cases r <;> simp only [Rule.call] <;> infer_instance

instance Rule.callValue_calm (f v : Value) : Calm (Rule.callValue f v) := by
  unfold Rule.callValue
  split <;> infer_instance

/-- The checks of a tag are built calmly, given the same of every build one level of fuel
down. -/
theorem Build.tagCheck_calm {fuel : Nat}
    (h : ∀ tag field spec owner rule, Calm (Build.factory fuel tag field spec owner rule))
    (tag : Tag) (field : Option String) (spec : Spec) (owner : Option Nat) :
    Calm (Build.tagCheck (fuel + 1) tag field spec owner) := by
  have hcands : ∀ specs, Calm (Build.candidateChecks fuel specs field owner) := by
    intro specs
    induction specs with
    | nil => rw [Build.candidateChecks]; infer_instance
    | cons c rest ih =>
      have := h c.type field c owner c.custom
      rw [Build.candidateChecks]
      infer_instance
  have := h
  cases tag <;> simp only [Build.tagCheck] <;> infer_instance

instance Build.factory_calm (fuel : Nat) (tag : Tag) (field : Option String) (spec : Spec)
    (owner : Option Nat) (rule : Option Value) :
    Calm (Build.factory fuel tag field spec owner rule) := by
  induction fuel generalizing tag field spec owner rule with
  | zero =>
    rw [Build.factory, Build.tagCheck]
    cases rule <;> infer_instance
  | succ fuel ih =>
    have := Build.tagCheck_calm ih tag field spec owner
    rw [Build.factory]
    cases rule <;> infer_instance

instance Build.validator_calm (field : Option String) (spec : Spec) (owner : Option Nat) :
    Calm (Build.validator field spec owner) := by
  unfold Build.validator
  infer_instance

instance Build.fields_calm (owner : Option Nat) (specs : List (String × Spec)) :
    Calm (Build.fields owner specs) := by
  unfold Build.fields
  infer_instance

instance Schema.create_calm (fields options : Value) (registry : Option Nat) :
    Calm (Schema.create fields options registry) := by
  unfold Schema.create
  dsimp only
  repeat' (first | infer_instance | split | refine @Calm.bind _ _ _ _ ?_ fun _ => ?_)
  -- options that are not a mapping fail as building a mapping fails
  all_goals exact throw_of (Except.Within.within _ ‹_›)

instance Term.orderKeys_calm (keys : List Value) : Calm (Term.orderKeys keys) := by
  unfold Term.orderKeys
  split
  · infer_instance
  · -- sorting raises what comparing keys raises
    exact throw_of (Except.Within.within _ ‹_›)

instance Term.asType_calm (decl : Value) : Calm (Term.asType decl) := by
  unfold Term.asType
  split
  · split <;> infer_instance
  · infer_instance

instance Term.registryOf_calm (name : Option String) : Calm (Term.registryOf name) := by
  cases name <;> (unfold Term.registryOf; infer_instance)

mutual

/-- The value of a term is built calmly. -/
theorem Term.eval_calm : ∀ t : Term, Calm (Term.eval t)
  | .lit v => by rw [Term.eval]; infer_instance
  | .bytes s => by
    rw [Term.eval]
    split
    · infer_instance
    · exact Calm.throw_of (Except.Within.within _ ‹_›)
  | .date s => by rw [Term.eval]; split <;> infer_instance
  | .dateTime s => by rw [Term.eval]; split <;> infer_instance
  | .list ts => by have := Term.evalList_calm ts; rw [Term.eval]; infer_instance
  | .tuple ts => by have := Term.evalList_calm ts; rw [Term.eval]; infer_instance
  | .dict ps => by have := Term.evalPairs_calm ps; rw [Term.eval]; infer_instance
  | .foreign => by rw [Term.eval]; infer_instance
  | .any cs r => by have := Term.evalList_calm cs; rw [Term.eval]; infer_instance
  | .anyOf cs r => by have := Term.evalList_calm cs; rw [Term.eval]; infer_instance
  | .arrayOf e r => by have := Term.eval_calm e; rw [Term.eval]; infer_instance
  | .integer => by rw [Term.eval]; infer_instance
  | .ref name => by
    rw [Term.eval]
    refine @Calm.bind _ _ _ _ inferInstance fun o => ?_
    split <;> infer_instance
  | .lazy body name r => by rw [Term.eval]; infer_instance
  | .tag d r => by have := Term.eval_calm d; rw [Term.eval]; infer_instance
  | .fieldSpec d r => by have := Term.eval_calm d; rw [Term.eval]; infer_instance
  | .schema fs opts r => by
    have := Term.eval_calm fs
    cases opts with
    | none => rw [Term.eval]; infer_instance
    | some o => have := Term.eval_calm o; rw [Term.eval]; infer_instance
  | .rule r => by have := Term.evalRule_calm r; rw [Term.eval]; infer_instance

theorem Term.evalList_calm : ∀ ts : List Term, Calm (Term.evalList ts)
  | [] => by rw [Term.evalList]; infer_instance
  | t :: ts => by
    have := Term.eval_calm t
    have := Term.evalList_calm ts
    rw [Term.evalList]
    infer_instance

theorem Term.evalPairs_calm : ∀ ps : List (Term × Term), Calm (Term.evalPairs ps)
  | [] => by rw [Term.evalPairs]; infer_instance
  | (k, v) :: ps => by
    have := Term.eval_calm k
    have := Term.eval_calm v
    have := Term.evalPairs_calm ps
    rw [Term.evalPairs]
    refine @Calm.bind _ _ _ _ inferInstance fun kv => ?_
    refine @Calm.bind _ _ _ _ inferInstance fun vv => ?_
    split <;> infer_instance

theorem Term.evalRule_calm : ∀ r : RuleTerm, Calm (Term.evalRule r)
  | .const t => by have := Term.eval_calm t; rw [Term.evalRule]; infer_instance
  | .equals a b => by
    have := Term.eval_calm a; have := Term.eval_calm b; rw [Term.evalRule]; infer_instance
  | .member a b => by
    have := Term.eval_calm a; have := Term.eval_calm b; rw [Term.evalRule]; infer_instance
  | .minLength a b => by
    have := Term.eval_calm a; have := Term.eval_calm b; rw [Term.evalRule]; infer_instance
  | .greaterThan a b => by
    have := Term.eval_calm a; have := Term.eval_calm b; rw [Term.evalRule]; infer_instance
  | .startsWith a b => by
    have := Term.eval_calm a; have := Term.eval_calm b; rw [Term.evalRule]; infer_instance
  | .raises t => by have := Term.eval_calm t; rw [Term.evalRule]; infer_instance
  | .coroutine r => by have := Term.evalRule_calm r; rw [Term.evalRule]; infer_instance
  | .awaitable r => by have := Term.evalRule_calm r; rw [Term.evalRule]; infer_instance

end

instance (t : Term) : Calm (Term.eval t) := Term.eval_calm t

/-- Resolving a lazy tag builds its term and its declaration, calmly. -/
instance Run.resolveLazy_calm (lid : Nat) : Calm (Run.resolveLazy lid) := by
  unfold Run.resolveLazy
  refine @Calm.bind _ _ _ _ inferInstance fun l => ?_
  split <;> infer_instance

instance Run.applyRule_calm (rule v : Value) : Calm (Run.applyRule rule v) := by
  unfold Run.applyRule
  refine @Calm.bind _ _ _ _ inferInstance fun o => ?_
  split <;> infer_instance

instance Context.hasField_calm (ctx : Nat) (name : String) : Calm (Context.hasField ctx name) := by
  unfold Context.hasField
  infer_instance

instance Context.setMessages_calm (ctx : Nat) (m : List (String × String)) :
    Calm (Context.setMessages ctx m) := by
  unfold Context.setMessages
  infer_instance

instance Context.setMessage_calm (ctx : Nat) (field message : Value) :
    Calm (Context.setMessage ctx field message) := by
  unfold Context.setMessage
  split
  · refine @Calm.bind _ _ _ _ inferInstance fun b => ?_
    split
    · infer_instance
    · split <;> infer_instance
  · infer_instance

instance Run.setBusy_calm (node : Nat) (busy : Bool) : Calm (Run.setBusy node busy) := by
  unfold Run.setBusy
  refine @Calm.bind _ _ _ _ inferInstance fun c => ?_
  split <;> infer_instance

instance Run.apply_calm (ctx : Nat) (results : List (String × Value)) :
    Calm (Run.apply ctx results) := by
  unfold Run.apply
  infer_instance

instance Run.release_calm (node : Nat) (reentrant : Bool) (ctx : Option Nat) (path : String)
    (nested : Nat) (valid : Value) : Calm (Run.release node reentrant ctx path nested valid) := by
  unfold Run.release
  refine @Calm.bind _ _ _ _ inferInstance fun _ => ?_
  split
  · infer_instance
  · cases ctx <;> dsimp only <;> infer_instance

end Building

/-! ### The runner refuses only what is not a mapping -/

/-- Trying union candidates raises no `StructureError` when no candidate's check does. -/
instance Run.attempts_calm {run : Nat → Run Outcome} [∀ node, Calm (run node)]
    (all : List (Option Bool × Nat)) (v : Value) (path : String) (i : Nat)
    (rest : List (Option Bool × Nat)) (error : Value) : Calm (Run.attempts run all v path i rest error) := by
  induction rest generalizing i error with
  | nil => rw [Run.attempts.eq_1]; infer_instance
  | cons candidate more ih =>
    have := ih
    rw [Run.attempts.eq_def]
    dsimp only
    split
    all_goals
      refine @Calm.bind _ _ _ _ inferInstance fun o => ?_
      split <;> infer_instance

/-- Checking array elements raises no `StructureError` when the element check raises none. -/
instance Run.elements_calm {run : Value → String → Run Outcome} [∀ x q, Calm (run x q)]
    (element : Nat) (items : List Value) (ctx : Option Nat) (path : String) (i : Nat)
    (rest : List Value) (failed : Value) : Calm (Run.elements run element items ctx path i rest failed) := by
  induction rest generalizing i failed with
  | nil => rw [Run.elements.eq_1]; infer_instance
  | cons x more ih =>
    have := ih
    rw [Run.elements.eq_2]
    refine @Calm.bind _ _ _ _ inferInstance fun o => ?_
    split <;> infer_instance

/-- Running a schema's fields raises no `StructureError` when no validator does. -/
instance Run.fields_calm {run : Validator → Value → Run Outcome} [∀ val x, Calm (run val x)]
    (es : List (Value × Value)) (fs : List (String × Field)) : Calm (Run.fields run es fs) := by
  induction fs with
  | nil => rw [Run.fields.eq_1]; infer_instance
  | cons f rest ih =>
    have := ih
    rw [Run.fields.eq_2]
    infer_instance

/-- At depth `d`, the check runner raises no `StructureError`; a context's run is asked this
only on a mapping, since it refuses anything else with one. -/
structure RunCalm (d : Nat) : Prop where
  check : ∀ node v ctx path, Calm (Run.check d node v ctx path)
  context : ∀ ctx es, Calm (Run.context d ctx (.dict es))
  start : ∀ ctx es, Calm (Run.start d ctx (.dict es))
  validator : ∀ val v ctx, Calm (Run.validator d val v ctx)

namespace RunCalm

open Calm

variable {d : Nat}

theorem zero : RunCalm 0 where
  check _ _ _ _ := by rw [Run.check]; infer_instance
  context _ _ := by rw [Run.context]; infer_instance
  start _ _ := by rw [Run.start]; infer_instance
  validator _ _ _ := by rw [Run.validator]; infer_instance

theorem check_succ (ih : RunCalm d) (node : Nat) (v : Value) (ctx : Option Nat) (path : String) :
    Calm (Run.check (d + 1) node v ctx path) := by
  have := ih.check
  have := ih.context
  rw [Run.check.eq_2]
  refine @Calm.bind _ _ _ _ inferInstance fun c => ?_
  cases c with
  | array e lo hi =>
    dsimp only
    split
    · infer_instance
    · split_ifs <;> infer_instance
  | nested sid owned busy =>
    dsimp only
    -- the two ways of taking a context share the rest of the block
    split
    all_goals
      refine @Calm.bind _ _ _ _ inferInstance fun inner => ?_
      refine @Calm.bind _ _ _ _ inferInstance fun _ => ?_
      refine @Calm.bind _ _ _ _ (tryCatch_of_fails fun s e t he => ?_) fun answer => ?_
      · refine @Calm.bind _ _ _ _ inferInstance fun _ => ?_
        split
        · -- on a mapping, the nested run raised no `StructureError`
          exact throw_of (Calm.calm _ _ _ he)
        · infer_instance
        · exact throw_of (Fault.calm_of_ne ‹_›)
      · rcases answer with _ | (valid | k)
        · infer_instance
        · infer_instance
        · cases ctx <;> dsimp only <;> infer_instance
  | lazy lid field spec owner built =>
    dsimp only
    cases built <;> dsimp only <;> infer_instance
  | custom inner rule =>
    dsimp only
    refine @Calm.bind _ _ _ _ inferInstance fun o => ?_
    split
    · split <;> infer_instance
    · infer_instance
  | _ => dsimp only; infer_instance

theorem context_succ (ih : RunCalm d) (ctx : Nat) (es : List (Value × Value)) :
    Calm (Run.context (d + 1) ctx (.dict es)) := by
  have := ih.start
  rw [Run.context.eq_def]
  dsimp only
  refine @Calm.bind _ _ _ _ inferInstance fun results => ?_
  split <;> infer_instance

theorem start_succ (ih : RunCalm d) (ctx : Nat) (es : List (Value × Value)) :
    Calm (Run.start (d + 1) ctx (.dict es)) := by
  have := ih.validator
  rw [Run.start.eq_def]
  dsimp only
  refine @Calm.bind _ _ _ _ inferInstance fun c => ?_
  refine @Calm.bind _ _ _ _ inferInstance fun es => ?_
  refine @Calm.bind _ _ _ _ inferInstance fun sch => ?_
  refine @Calm.bind _ _ _ _ (@Calm.forIn _ _ _ (fun kv m => ?_) _ _) fun m => ?_
  · split <;> infer_instance
  · infer_instance

theorem validator_succ (ih : RunCalm d) (val : Validator) (v : Value) (ctx : Option Nat) :
    Calm (Run.validator (d + 1) val v ctx) := by
  have := ih.check
  rw [Run.validator.eq_def]
  dsimp only
  repeat' split
  all_goals
    refine @Calm.bind _ _ _ _ inferInstance fun o => ?_
    split <;> infer_instance

theorem succ (ih : RunCalm d) : RunCalm (d + 1) where
  check := check_succ ih
  context := context_succ ih
  start := start_succ ih
  validator := validator_succ ih

end RunCalm

/-- **The check runner, at any depth, raises no `StructureError`**, but for a context's run on
data that is not a mapping. -/
theorem Run.calm : ∀ d, RunCalm d
  | 0 => .zero
  | d + 1 => (Run.calm d).succ

/-! ### Validating a record -/

namespace Batch

/-- Validating a record that is none or a mapping raises no `StructureError`. -/
theorem create_calm (sid : Nat) {d : Value} (hd : d = .none ∨ ∃ es, d = .dict es) :
    Calm (create sid d) := by
  have := (Run.calm Run.depth).validator
  unfold create
  rcases hd with rfl | ⟨es, rfl⟩ <;> dsimp only <;> infer_instance

/-- Anything else is refused at once, with the schema's name and the record's type, and the
store is left as it was. -/
theorem create_refuses (sid : Nat) {d : Value} (hnone : d ≠ .none) (hdict : ∀ es, d ≠ .dict es)
    (s : Store) :
    (create sid d).run.run s = (.error (.notMapping (Store.schemaNameIn s sid) d.typeName), s) := by
  unfold create
  split
  · exact absurd rfl hnone
  · exact absurd rfl (hdict _)
  · dsimp only
    rw [Run.run_bind, Store.run_schemaName]
    rfl

/-- **A record is refused with a `StructureError` exactly when it is neither none nor a
mapping.** -/
theorem create_structureError_iff (sid : Nat) (d : Value) (s : Store) :
    (∃ f t, (create sid d).run.run s = (.error f, t) ∧ f.className = "StructureError") ↔
      d ≠ .none ∧ ∀ es, d ≠ .dict es := by
  constructor
  · rintro ⟨f, t, hrun, hclass⟩
    refine ⟨fun hd => ?_, fun es hd => ?_⟩
    all_goals
      have hcalm := (create_calm sid (by simp [hd])).calm s f t hrun
      exact (Fault.calm_iff f).mp hcalm hclass
  · rintro ⟨hnone, hdict⟩
    exact ⟨_, s, create_refuses sid hnone hdict s, rfl⟩

end Batch

end Schematic
