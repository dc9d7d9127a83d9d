import Mathlib
import Schematic.Proofs.Awaiting
import Schematic.Proofs.Faults

/-!
# Array checks

An array check refuses a value that is not a list or a tuple, then a list shorter than its
`min` or longer than its `max` (the field's array options), in that order, without looking at
any element. Otherwise it checks every element, in index order and under the path of its index,
each to the end and each awaited before the next one starts, also after an earlier element has
failed; its code is `invalid` when some element's is, `invalidType` when some element failed
otherwise, and no code when every element passed (`Run.arrayCode`).

* `Run.EachGives`: the elements, checked and awaited one after another;
* `Run.elements_gives`: the element loop, whether an element answers at once or later, is such a
  sequence, because the loop resumes after a pending element at the next index with the worst
  code so far;
* `Run.array_gives`: a whole array check, run and awaited;
* `Run.array_field_gives`: the check built for an array field, whose element is built as a
  field of the element tag with the same spec, so that the field's bounds apply to every element
  and its array options to every nested array.

Under an empty path the elements are checked under their bare index
(`validate_element_path_bare`).
-/

namespace Schematic

namespace Run

/-! ### The worst code -/

/-- The code an array reports for its elements' codes: `invalid` if one of them is `invalid`,
`invalidType` if some other one failed, no code if every element passed. -/
def arrayCode (codes : List Value) : Value :=
  if codes.any Value.truthy then
    if codes.any (fun c => c.truthy && c.same invalid) then invalid else invalidType
  else .none

theorem invalid_same : invalid.same invalid = true := by simp [invalid, Value.same]

theorem invalidType_same : invalidType.same invalid = false := by
  simp [invalid, invalidType, Value.same]

theorem none_same_invalid : Value.none.same invalid = false := by
  simp [invalid, Value.same, Value.number?]

/-- Folding `worst` over the codes keeps `failed` while every code passed, and otherwise ends on
`invalid` if `failed` or a failed code is `invalid`, else on `invalidType`. -/
theorem foldl_worst (codes : List Value) (failed : Value) :
    codes.foldl worst failed =
      if codes.any Value.truthy then
        if failed.same invalid || codes.any (fun c => c.truthy && c.same invalid) then invalid
        else invalidType
      else failed := by
  induction codes generalizing failed with
  | nil => simp
  | cons c cs ih =>
    rw [List.foldl_cons, ih]
    cases hc : c.truthy
    · simp [worst, hc]
    · -- a failed code makes the accumulator `invalid` or `invalidType`, never anything else
      by_cases hw : c.same invalid || failed.same invalid
      · simp [worst, hc, hw, invalid_same]
        grind
      · simp [worst, hc, hw, invalidType_same]
        grind

/-- The worst of the elements' codes is the array's code. -/
theorem foldl_worst_none (codes : List Value) : codes.foldl worst .none = arrayCode codes := by
  rw [foldl_worst, arrayCode, none_same_invalid, Bool.false_or]

/-! ### Checking the elements one after another -/

/-- `EachGives e ctx path i xs s codes t`: the elements `xs`, from index `i`, each checked by `e`
under the path of its index and awaited before the next one starts, give `codes`, from `s` to
`t`. -/
inductive EachGives (e : Nat) (ctx : Option Nat) (path : String) :
    Nat → List Value → Store → List Value → Store → Prop
  | nil {i : Nat} {s : Store} : EachGives e ctx path i [] s [] s
  | cons {i : Nat} {x : Value} {more : List Value} {s t u : Store} {code : Value}
      {codes : List Value} (hx : Gives s e x ctx (elementPath path i) code t)
      (hmore : EachGives e ctx path (i + 1) more t codes u) :
      EachGives e ctx path i (x :: more) s (code :: codes) u

/-- The elements one after another give one code each. -/
theorem EachGives.length_eq {e : Nat} {ctx : Option Nat} {path : String} {i : Nat}
    {xs : List Value} {s : Store} {codes : List Value} {t : Store}
    (h : EachGives e ctx path i xs s codes t) : codes.length = xs.length := by
  induction h with
  | nil => rfl
  | cons _ _ ih => simp [ih]

/-- **The element loop, on both paths.** Run from index `i` over the elements left, and awaited,
the loop checks each element in turn, awaiting a pending one before it starts the next, and
gives the worst of their codes after `failed`. The loop resumes at the index after the pending
element because the elements left are always the elements from that index. -/
theorem elements_gives {e : Nat} {items : List Value} {ctx : Option Nat} {path : String}
    (rest : List Value) :
    ∀ (i d : Nat) (failed : Value) {s t u : Store} {o : Outcome} {y : Value},
      items.drop i = rest →
      (elements (fun x p => check d e x ctx p) e items ctx path i rest failed).run.run s =
        (.ok o, t) → o.Settles t y u →
      ∃ codes, EachGives e ctx path i rest s codes u ∧ y = codes.foldl worst failed := by
  induction rest with
  | nil =>
    intro i d failed s t u o y _ h hy
    rw [elements.eq_1] at h
    cases h
    obtain ⟨rfl, rfl⟩ := Outcome.Settles.now_iff.mp hy
    exact ⟨[], .nil, rfl⟩
  | cons x more ih =>
    intro i d failed s t u o y hdrop h hy
    have hmore : items.drop (i + 1) = more := by rw [← List.tail_drop, hdrop, List.tail_cons]
    rw [elements.eq_2] at h
    obtain ⟨o₁, t₁, h₁, h⟩ := ok_of_bind h
    cases o₁ with
    | now code =>
      obtain ⟨codes, hcodes, rfl⟩ := ih (i + 1) d (worst failed code) hmore h hy
      exact ⟨code :: codes, .cons (.of_now h₁) hcodes, rfl⟩
    | later c =>
      -- the pending element is awaited, and the loop resumes at the next index
      cases h
      obtain ⟨x', t₂, hx, o', t', ho', hy'⟩ := hy.chain
      have hresume : resume depth (.elements e items ctx path i failed) x' =
          elements (fun y p => check depth e y ctx p) e items ctx path (i + 1) more
            (worst failed x') := by
        rw [← hmore]
        rfl
      rw [hresume] at ho'
      obtain ⟨codes, hcodes, rfl⟩ := ih (i + 1) depth (worst failed x') hmore ho' hy'
      exact ⟨x' :: codes, .cons (.of_later h₁ hx) hcodes, rfl⟩

/-! ### A whole array check -/

/-- `ArrayGives e lo hi ctx path v s y t`: an array check of element check `e` and length bounds
`lo` and `hi`, run on `v` from `s` and awaited, gives `y` and leaves `t`. -/
inductive ArrayGives (e : Nat) (lo hi : Option Int) (ctx : Option Nat) (path : String) (v : Value)
    (s : Store) : Value → Store → Prop
  | notItems (hv : v.items? = none) : ArrayGives e lo hi ctx path v s invalidType s
  | tooShort {xs : List Value} (hv : v.items? = some xs)
      (hlo : lo.any (fun n => (xs.length : Int) < n) = true) :
      ArrayGives e lo hi ctx path v s (.str "minArray") s
  | tooLong {xs : List Value} (hv : v.items? = some xs)
      (hlo : lo.any (fun n => (xs.length : Int) < n) = false)
      (hhi : hi.any (fun n => (xs.length : Int) > n) = true) :
      ArrayGives e lo hi ctx path v s (.str "maxArray") s
  | each {xs codes : List Value} {t : Store} (hv : v.items? = some xs)
      (hlo : lo.any (fun n => (xs.length : Int) < n) = false)
      (hhi : hi.any (fun n => (xs.length : Int) > n) = false)
      (he : EachGives e ctx path 0 xs s codes t) :
      ArrayGives e lo hi ctx path v s (arrayCode codes) t

/-- **An array check, run and awaited.** It answers by `ArrayGives`: the refusals leave the
store as it was, and otherwise every element is checked and awaited in turn. -/
theorem array_gives {s : Store} {node e : Nat} {lo hi : Option Int}
    (hnode : s.checks[node]? = some (.array e lo hi)) {d : Nat} {v : Value} {ctx : Option Nat}
    {path : String} {o : Outcome} {t u : Store} {y : Value}
    (h : (check (d + 1) node v ctx path).run.run s = (.ok o, t)) (hy : o.Settles t y u) :
    ArrayGives e lo hi ctx path v s y u := by
  rw [check.eq_def, run_bind_of_eq (Store.run_check _ _), Store.at!_of_getElem? hnode] at h
  dsimp only at h
  split at h
  · rename_i hv
    cases h
    obtain ⟨rfl, rfl⟩ := Outcome.Settles.now_iff.mp hy
    exact .notItems hv
  · rename_i xs hv
    split_ifs at h with hlo hhi
    · cases h
      obtain ⟨rfl, rfl⟩ := Outcome.Settles.now_iff.mp hy
      exact .tooShort hv hlo
    · cases h
      obtain ⟨rfl, rfl⟩ := Outcome.Settles.now_iff.mp hy
      exact .tooLong hv (by simpa using hlo) hhi
    · obtain ⟨codes, he, rfl⟩ := elements_gives xs 0 d .none List.drop_zero h hy
      rw [foldl_worst_none]
      exact .each hv (by simpa using hlo) (by simpa using hhi) he

end Run

/-- The check of an array field bounds the length by the field's array options, and its element
check is built as a field of the element tag with the same spec. -/
theorem Build.tagCheck_arrayOf {fuel id : Nat} {field : Option String} {spec : Spec}
    {owner : Option Nat} {s t : Store} {node : Nat}
    (h : (Build.tagCheck (fuel + 1) (.arrayOf id) field spec owner).run.run s = (.ok node, t)) :
    ∃ e, (∃ t', (Build.factory fuel (Store.at! s.arrays id).element field spec owner none).run.run s =
        (.ok e, t')) ∧
      t.checks[node]? = some (.array e (spec.arrayOptions.bind (·.min))
        (spec.arrayOptions.bind (·.max))) := by
  rw [Build.tagCheck] at h
  dsimp only at h
  rw [Run.run_bind_of_eq (Store.run_array _ _)] at h
  obtain ⟨e, t', he, h⟩ := Run.ok_of_bind h
  rw [Store.run_addCheck] at h
  cases h
  exact ⟨e, ⟨t', he⟩, Array.getElem?_push_size⟩

namespace Run

/-- **Array fields.** The check built for a field of an array tag has the field's array options
as its length bounds and checks each element as a field of the element tag with the same spec.
Run on any value, from any later store, and awaited when it answers later, it gives what
`ArrayGives` says: `invalidType` for a value that is not a list or tuple, `minArray` or
`maxArray` for a length out of bounds, in both cases with no element checked; and otherwise the
`arrayCode` of the codes of every element, checked in index order under the path of its index
and each awaited before the next starts. -/
theorem array_field_gives {fuel id : Nat} {field : Option String} {spec : Spec}
    {owner : Option Nat} {s₀ s₁ : Store} {node : Nat}
    (hbuild : (Build.tagCheck (fuel + 1) (.arrayOf id) field spec owner).run.run s₀ =
      (.ok node, s₁)) :
    ∃ e, (∃ t, (Build.factory fuel (Store.at! s₀.arrays id).element field spec owner none).run.run s₀ =
        (.ok e, t)) ∧
      s₁.checks[node]? = some (.array e (spec.arrayOptions.bind (·.min))
        (spec.arrayOptions.bind (·.max))) ∧
      ∀ (s : Store) (d : Nat) (v : Value) (ctx : Option Nat) (path : String) (o : Outcome)
        (t u : Store) (y : Value),
        s.checks[node]? = s₁.checks[node]? →
        (check d node v ctx path).run.run s = (.ok o, t) → o.Settles t y u →
        ArrayGives e (spec.arrayOptions.bind (·.min)) (spec.arrayOptions.bind (·.max)) ctx path v
          s y u := by
  obtain ⟨e, hfactory, hnode⟩ := Build.tagCheck_arrayOf hbuild
  refine ⟨e, hfactory, hnode, fun s d v ctx path o t u y hs h hy => ?_⟩
  cases d with
  | zero => exact (check_zero h).elim
  | succ d => exact array_gives (hs.trans hnode) h hy

end Run

/-- A store with an array tag (`0`) of text, for building an array field. -/
def textArrays : Store where
  arrays := #[{ element := .primitive .string, name := "arrayOf(string)" }]

/-- An array field of text of at least two items. -/
def textArraySpec : Spec where
  type := .arrayOf 0
  min := .none
  max := .none
  arrayOptions := some { min := some 2 }

/-- The store `textArrays` after building the array field's check at handle `1`, after the
element's. -/
def textArraysBuilt : Store :=
  ((Build.tagCheck 2 (.arrayOf 0) (some "f") textArraySpec none).run.run textArrays).2

/-- The array field of `textArrays`, built and run: the integer `5` is no array, and in the list
`["a", 1]` the second element is no text, so both answer `invalidType`. -/
theorem array_field_gives_textArrays :
    (Build.tagCheck 2 (.arrayOf 0) (some "f") textArraySpec none).run.run textArrays =
      (.ok 1, textArraysBuilt) ∧
    ∃ e, (∃ t, (Build.factory 1 (Store.at! textArrays.arrays 0).element (some "f") textArraySpec
        none none).run.run textArrays = (.ok e, t)) ∧
      textArraysBuilt.checks[1]? = some (.array e (some 2) none) ∧
      (∀ (s : Store) (d : Nat) (v : Value) (ctx : Option Nat) (path : String) (o : Outcome)
        (t u : Store) (y : Value),
        s.checks[1]? = textArraysBuilt.checks[1]? →
        (Run.check d 1 v ctx path).run.run s = (.ok o, t) → o.Settles t y u →
        Run.ArrayGives e (some 2) none ctx path v s y u) ∧
      (Run.check 3 1 (.int 5) none "f").run.run textArraysBuilt =
        (.ok (.now Run.invalidType), textArraysBuilt) ∧
      Run.ArrayGives e (some 2) none none "f" (.int 5) textArraysBuilt Run.invalidType
        textArraysBuilt ∧
      (Run.check 3 1 (.list [.str "a", .int 1]) none "f").run.run textArraysBuilt =
        (.ok (.now Run.invalidType), textArraysBuilt) ∧
      Run.ArrayGives e (some 2) none none "f" (.list [.str "a", .int 1]) textArraysBuilt
        Run.invalidType textArraysBuilt := by
  have hbuild : (Build.tagCheck 2 (.arrayOf 0) (some "f") textArraySpec none).run.run textArrays =
      (.ok 1, textArraysBuilt) := Prod.ext (by cbv) rfl
  have hnumber : (Run.check 3 1 (.int 5) none "f").run.run textArraysBuilt =
      (.ok (.now Run.invalidType), textArraysBuilt) := by cbv
  have hlist : (Run.check 3 1 (.list [.str "a", .int 1]) none "f").run.run textArraysBuilt =
      (.ok (.now Run.invalidType), textArraysBuilt) := by cbv
  obtain ⟨e, hfactory, hnode, hgives⟩ := Run.array_field_gives hbuild
  exact ⟨hbuild, e, hfactory, hnode, hgives, hnumber,
    hgives textArraysBuilt 3 (.int 5) none "f" _ _ _ _ rfl hnumber .now, hlist,
    hgives textArraysBuilt 3 (.list [.str "a", .int 1]) none "f" _ _ _ _ rfl hlist .now⟩

/-- A record schema (`1`) with an array field named by the empty path, of records (`0`) with one
required text `x`, and a text field `0`. -/
def barePathStore : Store where
  schemas := #[recordSchema [fieldOf "x" 0 true], recordSchema [fieldOf "" 2 false, fieldOf "0" 0 false]]
  contexts := #[{ schema := 0 }, { schema := 1 }]
  checks := #[.member .string, .nested 0 0 false, .array 1 none none]

/-- Under the empty path, element `0` is checked under the path `0`, not `.0`: the messages of
the invalid element land under `0.x`, a path of the field `0`. -/
theorem validate_element_path_bare :
    ((Run.validate 1 (.dict [(.str "", .list [.dict []])])).run.run barePathStore).1 = .ok false ∧
      (Store.at! ((Run.validate 1 (.dict [(.str "", .list [.dict []])])).run.run
        barePathStore).2.contexts 1).messages = [("0.x", "required"), ("", "invalid")] :=
  ⟨by cbv, by cbv⟩

end Schematic
