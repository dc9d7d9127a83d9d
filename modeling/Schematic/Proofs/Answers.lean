import Mathlib
import Schematic.Proofs.Coherence

/-!
# What a synchronous validation answers and leaves

A declarative account of a validation in which every field answers at once, by relations that
mirror the checks and never mention a context:

* `Answer w node v path code ws`: the check at `node` answers `code` on `v`, and writes `ws`
  into the context of its caller: the messages a nested schema leaves when it finds the value
  invalid, copied under `path` (`Messages.copies`), an element's under `path.i`, nothing from
  the candidates of a union;
* `Tries`, `Candidate`: a union's candidates, tried in order;
* `Each`: an array's elements, the worst code kept;
* `ValidatorAnswer`, `FieldAnswers`: a field's validator, and every field of a schema in order;
* `Leaves w sid es m`: a context of schema `sid` validating `es` leaves the map `m`: the keys
  that name no field marked `notInSchema`, then every field's copies in order, the later write
  of a path winning, then every field's own code written over its name, text set and anything
  else cleared (`Leaves.get?_eq`).

A check, a schema, the plain text of a key or the answer of a custom rule is read at some store
of a window `w`. The window of a run is every store between its first and its last
(`Store.Between`): the objects a run reads are the same at all of them, save those created
meanwhile, which a run may only have read once they existed.
-/

namespace Schematic

/-- Some store of the window `w` reads `a` through `f`. -/
def Reads {α : Type} (w : Store → Prop) (f : Store → α) (a : α) : Prop := ∃ u, w u ∧ f u = a

theorem Reads.mono {α : Type} {w w' : Store → Prop} {f : Store → α} {a : α} (h : Reads w f a)
    (hw : ∀ u, w u → w' u) : Reads w' f a :=
  let ⟨u, hu, hf⟩ := h
  ⟨u, hw u hu, hf⟩

/-- The stores a run from `s` to `t` passes through. -/
def Store.Between (s t u : Store) : Prop := s.Ext u ∧ u.Ext t

/-- A window holding every store between `s` and `t`. -/
def Spans (w : Store → Prop) (s t : Store) : Prop := ∀ u, s.Ext u → u.Ext t → w u

namespace Spans

theorem between (s t : Store) : Spans (Store.Between s t) s t := fun _ hs ht => ⟨hs, ht⟩

/-- A window around a run holds the window around its first part. -/
theorem left {w : Store → Prop} {s t u : Store} (h : Spans w s u) (htu : t.Ext u) : Spans w s t :=
  fun v hs ht => h v hs (ht.trans htu)

/-- A window around a run holds the window around its last part. -/
theorem right {w : Store → Prop} {s t u : Store} (h : Spans w s u) (hst : s.Ext t) : Spans w t u :=
  fun v ht hu => h v (hst.trans ht) hu

/-- The store a run starts from is in its window. -/
theorem start {w : Store → Prop} {s t : Store} (h : Spans w s t) (hst : s.Ext t) : w s :=
  h s (.refl s) hst

/-- The store a run ends in is in its window. -/
theorem finish {w : Store → Prop} {s t : Store} (h : Spans w s t) (hst : s.Ext t) : w t :=
  h t hst (.refl t)

end Spans

namespace Messages

/-- A nested map copied under `path`: every path `p` becomes `path.p`; nothing is copied under
an empty path. -/
def copies (path : String) (m : List (String × String)) : List (String × String) :=
  if path.isEmpty then [] else m.map fun e => (path ++ "." ++ e.1, e.2)

/-- The marks of the keys of `es` that name no field, under their plain text. -/
def notIn (naming : Naming) (names : List String) (es : List (Value × Value)) :
    List (String × String) :=
  es.filterMap fun e => if Run.namesField names e.1 then none else some (e.1.plain naming, "notInSchema")

end Messages

mutual

/-- `Answer w node v path code ws`: the check at `node` answers `code` on `v` for `path`, and
writes `ws` into its caller's context. -/
inductive Answer (w : Store → Prop) : Nat → Value → String → Value → List (String × String) → Prop
  | member {node v path p} (h : Reads w (fun u => Store.at! u.checks node) (.member p)) :
      Answer w node v path (if p.test v then .none else Run.invalidType) []
  | bounded {node v path p lo hi code}
      (h : Reads w (fun u => Store.at! u.checks node) (.bounded p lo hi))
      (hc : Primitive.boundedCode p lo hi v = .ok code) : Answer w node v path code []
  | pass {node v path} (h : Reads w (fun u => Store.at! u.checks node) .pass) :
      Answer w node v path .none []
  | union {node v path cs code} (h : Reads w (fun u => Store.at! u.checks node) (.union cs))
      (ht : Tries w cs v path .none code) : Answer w node v path code []
  | notItems {node v path e lo hi} (h : Reads w (fun u => Store.at! u.checks node) (.array e lo hi))
      (hv : v.items? = none) : Answer w node v path Run.invalidType []
  | tooShort {node v path e lo hi xs}
      (h : Reads w (fun u => Store.at! u.checks node) (.array e lo hi)) (hv : v.items? = some xs)
      (hlo : lo.any (fun n => (xs.length : Int) < n) = true) :
      Answer w node v path (.str "minArray") []
  | tooLong {node v path e lo hi xs}
      (h : Reads w (fun u => Store.at! u.checks node) (.array e lo hi)) (hv : v.items? = some xs)
      (hlo : lo.any (fun n => (xs.length : Int) < n) = false)
      (hhi : hi.any (fun n => (xs.length : Int) > n) = true) :
      Answer w node v path (.str "maxArray") []
  | array {node v path e lo hi xs code ws}
      (h : Reads w (fun u => Store.at! u.checks node) (.array e lo hi)) (hv : v.items? = some xs)
      (hlo : lo.any (fun n => (xs.length : Int) < n) = false)
      (hhi : hi.any (fun n => (xs.length : Int) > n) = false)
      (he : Each w e xs path 0 .none code ws) : Answer w node v path code ws
  | notMapping {node v path sid owned busy}
      (h : Reads w (fun u => Store.at! u.checks node) (.nested sid owned busy))
      (hv : ∀ es, v ≠ .dict es) : Answer w node v path Run.invalidType []
  | nested {node es path sid owned busy m}
      (h : Reads w (fun u => Store.at! u.checks node) (.nested sid owned busy))
      (hl : Leaves w sid es m) :
      Answer w node (.dict es) path (if m.isEmpty then .none else Run.invalid) (Messages.copies path m)
  | lazy {node v path lid field spec owner n code ws}
      (h : Reads w (fun u => Store.at! u.checks node) (.lazy lid field spec owner (some n)))
      (ha : Answer w n v path code ws) : Answer w node v path code ws
  | custom {node v path inner rule code ws}
      (h : Reads w (fun u => Store.at! u.checks node) (.custom inner rule))
      (ha : Answer w inner v path code ws) (hc : code.truthy = true) : Answer w node v path code ws
  | rule {node v path inner rule code ws x}
      (h : Reads w (fun u => Store.at! u.checks node) (.custom inner rule))
      (ha : Answer w inner v path code ws) (hc : code.truthy = false)
      (hr : Reads w (fun u => ((Rule.callValue rule v).run.run u).1) (.ok (.now x))) :
      Answer w node v path (Rule.interpret x) ws

/-- `Candidate w nullable node v path code`: a union candidate's code: by its own `nullable`
for none, else its check's. -/
inductive Candidate (w : Store → Prop) : Option Bool → Nat → Value → String → Value → Prop
  | none {nullable node path} :
      Candidate w nullable node .none path (if nullable == some true then .none else Run.invalidType)
  | some {nullable node v path code ws} (hv : v ≠ .none) (ha : Answer w node v path code ws) :
      Candidate w nullable node v path code

/-- `Tries w cs v path error code`: the candidates `cs`, tried in order with the first specific
error so far, answer `code`: nothing once one passes, else that error or `invalidType`. -/
inductive Tries (w : Store → Prop) : List (Option Bool × Nat) → Value → String → Value → Value → Prop
  | nil {v path error} : Tries w [] v path error (if error.truthy then error else Run.invalidType)
  | pass {nullable node more v path error code} (hc : Candidate w nullable node v path code)
      (hpass : code.truthy = false) : Tries w ((nullable, node) :: more) v path error .none
  | next {nullable node more v path error code result} (hc : Candidate w nullable node v path code)
      (hfail : code.truthy = true)
      (ht : Tries w more v path
        (if !error.truthy && !code.same Run.invalidType then code else error) result) :
      Tries w ((nullable, node) :: more) v path error result

/-- `Each w e xs path i failed code ws`: the elements `xs`, from index `i`, each checked by `e`
under its own path, answer the worst code, and write what each element writes. -/
inductive Each (w : Store → Prop) :
    Nat → List Value → String → Nat → Value → Value → List (String × String) → Prop
  | nil {e path i failed} : Each w e [] path i failed failed []
  | cons {e x more path i failed code ws result ws'}
      (ha : Answer w e x (Run.elementPath path i) code ws)
      (he : Each w e more path (i + 1) (Run.worst failed code) result ws') :
      Each w e (x :: more) path i failed result (ws ++ ws')

/-- `ValidatorAnswer w val v path code ws`: a field's validator answers `code` on `v` (absent
as `missing`), at once. -/
inductive ValidatorAnswer (w : Store → Prop) :
    Validator → Value → String → Value → List (String × String) → Prop
  | missing {val path} (hp : val.alwaysPending = false) :
      ValidatorAnswer w val .missing path (if val.required then .str "required" else .none) []
  | null {val path} (hp : val.alwaysPending = false) (ho : val.offersNone = false) :
      ValidatorAnswer w val .none path (if val.nullable == some false then .str "isNull" else .none) []
  | checked {val v path code ws} (hp : val.alwaysPending = false) (hv : v ≠ .missing)
      (ho : v = .none → val.offersNone = true) (ha : Answer w val.check v path code ws) :
      ValidatorAnswer w val v path code ws

/-- `FieldAnswers w fs es codes ws`: the fields `fs`, in order, answer `codes` on the values `es`
gives them, and write `ws`. -/
inductive FieldAnswers (w : Store → Prop) :
    List (String × Field) → List (Value × Value) → List (String × Value) → List (String × String) →
      Prop
  | nil {es} : FieldAnswers w [] es [] []
  | cons {name f rest es code ws codes ws'}
      (hv : ValidatorAnswer w f.validator ((Value.lookup (.str name) es).getD .missing) name code ws)
      (hr : FieldAnswers w rest es codes ws') :
      FieldAnswers w ((name, f) :: rest) es ((name, code) :: codes) (ws ++ ws')

/-- `Leaves w sid es m`: a context of schema `sid` validating `es` leaves the map `m`. -/
inductive Leaves (w : Store → Prop) : Nat → List (Value × Value) → List (String × String) → Prop
  | mk {sid es sch codes ws notIn}
      (hs : Reads w (fun u => Store.at! u.schemas sid) sch)
      (hn : Reads w (fun u => Messages.notIn (Store.namingIn u) (sch.fields.map (·.1)) es) notIn)
      (hf : FieldAnswers w sch.fields es codes ws) :
      Leaves w sid es (Messages.settle codes (Messages.putAll (notIn ++ ws) []))

end

/-- The fields answer in order: the codes are keyed by the fields' names. -/
theorem FieldAnswers.names {w : Store → Prop} {es : List (Value × Value)} :
    ∀ {fs : List (String × Field)} {codes : List (String × Value)} {ws : List (String × String)},
      FieldAnswers w fs es codes ws → codes.map (·.1) = fs.map (·.1)
  | [], _, _, h => by cases h; rfl
  | _ :: _, _, _, h => by
    cases h with
    | cons _ hr => simp [FieldAnswers.names hr]

theorem Messages.notIn_filled (naming : Naming) (names : List String) (es : List (Value × Value)) :
    Messages.Filled (Messages.notIn naming names es) := by
  intro e he
  obtain ⟨x, -, hx⟩ := List.mem_filterMap.mp he
  split at hx
  · cases hx
  · cases hx
    simp

namespace Leaves

/-- The map a context leaves has no path twice. -/
theorem keyed {w : Store → Prop} {sid : Nat} {es : List (Value × Value)}
    {m : List (String × String)} (h : Leaves w sid es m) : Messages.Keyed m := by
  cases h
  exact (Messages.Keyed.nil.putAll _).settle _

/-- **How the map a context leaves reads**: a field's name reads the text of its own code (nothing
when the code is not text); any other path reads the last of the `notInSchema` marks and the
copies written at it. -/
theorem get?_eq {codes : List (String × Value)} {marks : List (String × String)} (k : String) :
    Messages.get? k (Messages.settle codes (Messages.putAll marks [])) =
      match Messages.lastCode k codes with
      | some code => Run.codeText code
      | none => Messages.lastAt k marks := by
  rw [Messages.get?_settle]
  rcases Messages.lastCode k codes with _ | code
  · rw [Messages.get?_putAll, Messages.get?_nil, Option.or_none]
  · rfl

end Leaves

end Schematic
