import Mathlib
import Schematic.Proofs.Awaiting

/-!
# Field validators

A field validator decides in a fixed order. An absent value is `required` or fine; none is
`isNull` or fine, unless the field leaves `nullable` unset and its type is a union, which then
takes none to its candidates; any other value goes to the type check. A custom rule runs only
when that check passed, and then once, its result read by `Rule.interpret`. A field whose rule
is a coroutine function answers later on every value.

* `Run.RuledGives`: a check followed by a custom rule, run and awaited;
* `Run.custom_gives`: a custom node answers by `RuledGives`, whether its check answers at once
  or later, since a pending check resumes into the same decision;
* `Run.ValidatorGives`, `Run.validator_gives`: a whole validator, run and awaited;
* **`Run.field_validator_gives`**: the validator built for a field spec, on every value.
-/

namespace Schematic

namespace Run

/-! ### Custom rules -/

/-- `RuledGives s inner v ctx path rule y u`: the check `inner` on `v`, followed by the custom
`rule` when there is one, gives `y` from `s` to `u`. The rule is called only when the check
passed, and then exactly once. -/
inductive RuledGives (s : Store) (inner : Nat) (v : Value) (ctx : Option Nat) (path : String) :
    Option Value → Value → Store → Prop
  | plain {y : Value} {u : Store} (h : Gives s inner v ctx path y u) :
      RuledGives s inner v ctx path none y u
  | failed {r code : Value} {u : Store} (h : Gives s inner v ctx path code u)
      (hcode : code.truthy = true) : RuledGives s inner v ctx path (some r) code u
  | called {r code : Value} {t t' u : Store} {w : Outcome} {x : Value}
      (h : Gives s inner v ctx path code t) (hcode : code.truthy = false)
      (hcall : (Rule.callValue r v).run.run t = (.ok w, t')) (hw : w.Settles t' x u) :
      RuledGives s inner v ctx path (some r) (Rule.interpret x) u

/-- Applying a rule calls it once and reads what it gives, awaited, by `Rule.interpret`. -/
theorem applyRule_settles {r v : Value} {t t' u : Store} {o : Outcome} {y : Value}
    (h : (applyRule r v).run.run t = (.ok o, t')) (hy : o.Settles t' y u) :
    ∃ w t₁ x, (Rule.callValue r v).run.run t = (.ok w, t₁) ∧ w.Settles t₁ x u ∧
      y = Rule.interpret x := by
  rw [applyRule] at h
  obtain ⟨w, t₁, hw, h⟩ := ok_of_bind h
  cases w with
  | now x =>
    cases h
    obtain ⟨rfl, rfl⟩ := Outcome.Settles.now_iff.mp hy
    exact ⟨_, _, x, hw, .now, rfl⟩
  | later c =>
    cases h
    obtain ⟨x, t₂, hx, o', t₃, ho', hy'⟩ := hy.chain
    rw [resume] at ho'
    cases ho'
    obtain ⟨rfl, rfl⟩ := Outcome.Settles.now_iff.mp hy'
    exact ⟨_, _, x, hw, hx, rfl⟩

/-- **A custom node, run and awaited.** Its check runs first; a code stands, and only on no
code is the rule called. A pending check is awaited and resumes into the same decision. -/
theorem custom_gives {s : Store} {node inner : Nat} {r : Value}
    (hnode : s.checks[node]? = some (.custom inner r)) {d : Nat} {v : Value} {ctx : Option Nat}
    {path : String} {o : Outcome} {t u : Store} {y : Value}
    (h : (check (d + 1) node v ctx path).run.run s = (.ok o, t)) (hy : o.Settles t y u) :
    RuledGives s inner v ctx path (some r) y u := by
  rw [check.eq_def, run_bind_of_eq (Store.run_check _ _), Store.at!_of_getElem? hnode] at h
  dsimp only at h
  obtain ⟨o₁, t₁, h₁, h⟩ := ok_of_bind h
  cases o₁ with
  | now code =>
    dsimp only at h
    split_ifs at h with hcode
    · cases h
      obtain ⟨rfl, rfl⟩ := Outcome.Settles.now_iff.mp hy
      exact .failed (.of_now h₁) hcode
    · obtain ⟨w, t', x, hw, hx, rfl⟩ := applyRule_settles h hy
      exact .called (.of_now h₁) (by simpa using hcode) hw hx
  | later c =>
    cases h
    obtain ⟨code, t₂, hc, o', t', ho', hy'⟩ := hy.chain
    rw [resume] at ho'
    split_ifs at ho' with hcode
    · cases ho'
      obtain ⟨rfl, rfl⟩ := Outcome.Settles.now_iff.mp hy'
      exact .failed (.of_later h₁ hc) hcode
    · obtain ⟨w, t₃, x, hw, hx, rfl⟩ := applyRule_settles ho' hy'
      exact .called (.of_later h₁ hc) (by simpa using hcode) hw hx

/-- What a custom node gives, at whatever depth it ran, is a `RuledGives` of its check. -/
theorem Gives.custom {s : Store} {node inner : Nat} {r : Value}
    (hnode : s.checks[node]? = some (.custom inner r)) {v : Value} {ctx : Option Nat}
    {path : String} {y : Value} {u : Store} (h : Gives s node v ctx path y u) :
    RuledGives s inner v ctx path (some r) y u := by
  obtain ⟨d, o, t, h, hy⟩ := h
  cases d with
  | zero => exact (check_zero h).elim
  | succ d => exact custom_gives hnode h hy

/-! ### Validators -/

/-- `ValidatorGives s val ctx v y u`: the validator `val`, run on `v` from `s` and awaited, gives
`y` and leaves `u`. Only a value that reaches the check can change the store. -/
inductive ValidatorGives (s : Store) (val : Validator) (ctx : Option Nat) :
    Value → Value → Store → Prop
  | missing : ValidatorGives s val ctx .missing (if val.required then .str "required" else .none) s
  | null (hoffer : val.offersNone = false) :
      ValidatorGives s val ctx .none (if val.nullable == some false then .str "isNull" else .none) s
  | checked {v y : Value} {u : Store} (hmissing : v ≠ .missing)
      (hnone : v = .none → val.offersNone = true)
      (h : Gives s val.check v ctx (val.field.getD "") y u) : ValidatorGives s val ctx v y u

/-- An answer given at once, wrapped into a settled awaitable for a coroutine rule or not, gives
itself and awaits nothing. -/
theorem pass_settles {pending : Bool} {code : Value} {t₁ t u : Store} {o : Outcome} {y : Value}
    (h : (if pending = true then pure (.later (.settled code)) else pure (.now code) :
      Run Outcome).run.run t₁ = (.ok o, t)) (hy : o.Settles t y u) : y = code ∧ u = t₁ := by
  split_ifs at h
  · cases h
    exact hy.settled
  · cases h
    exact Outcome.Settles.now_iff.mp hy

/-- **A validator, run and awaited.** It decides presence, then none, then hands the value to its
check; an answer it makes pending for a coroutine rule gives the same code. -/
theorem validator_gives {d : Nat} {val : Validator} {v : Value} {ctx : Option Nat}
    {s t u : Store} {o : Outcome} {y : Value}
    (h : (validator d val v ctx).run.run s = (.ok o, t)) (hy : o.Settles t y u) :
    ValidatorGives s val ctx v y u := by
  rw [validator.eq_def] at h
  rcases d with _ | d
  · cases h
  dsimp only at h
  split at h
  on_goal 2 => split at h
  -- every branch binds an answer and passes it on the same way, as a settled awaitable for a
  -- coroutine rule
  all_goals
    obtain ⟨a, t₁, ha, hk⟩ := ok_of_bind h
    clear h
    have hpass : a.Settles t₁ y u := by
      cases a with
      | now code =>
        obtain ⟨rfl, rfl⟩ := pass_settles hk hy
        exact .now
      | later c =>
        cases hk
        exact hy
  · cases ha
    obtain ⟨rfl, rfl⟩ := Outcome.Settles.now_iff.mp hpass
    exact .missing
  · rename_i hoffer
    exact .checked (by simp) (fun _ => hoffer) ⟨d, a, t₁, ha, hpass⟩
  · rename_i hoffer
    cases ha
    obtain ⟨rfl, rfl⟩ := Outcome.Settles.now_iff.mp hpass
    exact .null (by simpa using hoffer)
  · rename_i hmissing hnone
    exact .checked hmissing (fun h => absurd h hnone) ⟨d, a, t₁, ha, hpass⟩

/-- A validator whose rule is a coroutine function answers later on every value. -/
theorem validator_isLater {d : Nat} {val : Validator} {v : Value} {ctx : Option Nat}
    {s t : Store} {o : Outcome} (hp : val.alwaysPending = true)
    (h : (validator d val v ctx).run.run s = (.ok o, t)) : Outcome.isLater o = true := by
  rw [validator.eq_def] at h
  rcases d with _ | d
  · cases h
  -- every branch binds an answer, and an answer given at once is made pending
  simp only [hp, ↓reduceIte] at h
  split at h
  on_goal 2 => split at h
  all_goals
    obtain ⟨a, t₁, -, h⟩ := ok_of_bind h
    cases a <;> cases h <;> rfl

end Run

/-- A check built with a custom rule is a custom node over the check of its tag; without one it
is the tag's check itself. -/
theorem Build.factory_built {fuel : Nat} {tag : Tag} {field : Option String} {spec : Spec}
    {owner : Option Nat} {rule : Option Value} {s t : Store} {m : Nat}
    (h : (Build.factory fuel tag field spec owner rule).run.run s = (.ok m, t)) :
    ∃ n, (∃ t', (Build.tagCheck fuel tag field spec owner).run.run s = (.ok n, t')) ∧
      (rule = none → m = n) ∧ ∀ r, rule = some r → t.checks[m]? = some (.custom n r) := by
  rw [Build.factory] at h
  obtain ⟨n, t', hn, h⟩ := Run.ok_of_bind h
  refine ⟨n, ⟨t', hn⟩, fun hr => ?_, fun r hr => ?_⟩
  · simp only [hr] at h
    cases h
    rfl
  · simp only [hr, Store.run_addCheck] at h
    cases h
    exact Array.getElem?_push_size

/-- A field's validator carries its spec's flags, and its check is the check of its type,
followed by a node for its custom rule when it has one. -/
theorem Build.validator_built {field : Option String} {spec : Spec} {owner : Option Nat}
    {s t : Store} {val : Validator}
    (h : (Build.validator field spec owner).run.run s = (.ok val, t)) :
    val.field = field ∧ val.required = spec.required ∧ val.nullable = spec.nullable ∧
      val.offersNone = (spec.nullable.isNone && spec.type.checksNull) ∧
      val.alwaysPending = (spec.custom.map Build.isCoroutineRule).getD false ∧
      ∃ n, (∃ t', (Build.tagCheck Build.depth spec.type field spec owner).run.run s =
          (.ok n, t')) ∧
        (spec.custom = none → val.check = n) ∧
        ∀ r, spec.custom = some r → t.checks[val.check]? = some (.custom n r) := by
  rw [Build.validator] at h
  obtain ⟨c, t₁, hc, h⟩ := Run.ok_of_bind h
  cases h
  exact ⟨rfl, rfl, rfl, rfl, rfl, Build.factory_built hc⟩

namespace Run

/-- **Field validators.** The validator built for a field spec checks with the check built for
the spec's type under the spec's bounds and array options. Run on any value, from any store that
still holds its custom node, it answers later on every value when its rule is a coroutine
function, and awaited it gives: on an absent value, `required` if the field is required and no
code otherwise; on none, when the field sets `nullable` or its type is not a union, `isNull` if
`nullable` is false and no code otherwise; on any other value, and on none offered to a union,
the type check's code when it failed, and only when it passed the rule's result, the rule called
once (`RuledGives`). The first two leave the store as it was. -/
theorem field_validator_gives {field : Option String} {spec : Spec} {owner : Option Nat}
    {s₀ s₁ : Store} {val : Validator}
    (hbuild : (Build.validator field spec owner).run.run s₀ = (.ok val, s₁)) :
    ∃ n, (∃ t, (Build.tagCheck Build.depth spec.type field spec owner).run.run s₀ = (.ok n, t)) ∧
      ∀ (s : Store) (d : Nat) (v : Value) (ctx : Option Nat) (o : Outcome) (t : Store),
        s.checks[val.check]? = s₁.checks[val.check]? →
        (validator d val v ctx).run.run s = (.ok o, t) →
        ((spec.custom.map Build.isCoroutineRule).getD false = true → Outcome.isLater o = true) ∧
        ∀ y u, o.Settles t y u →
          (v = .missing ∧ y = (if spec.required then .str "required" else .none) ∧ u = s) ∨
          (v = .none ∧ (spec.nullable.isSome || !spec.type.checksNull) = true ∧
            y = (if spec.nullable == some false then .str "isNull" else .none) ∧ u = s) ∨
          (v ≠ .missing ∧ (v = .none → spec.nullable = none ∧ spec.type.checksNull = true) ∧
            RuledGives s n v ctx (field.getD "") spec.custom y u) := by
  obtain ⟨hfield, hreq, hnull, hoffer, hpend, n, hn, hplain, hcustom⟩ :=
    Build.validator_built hbuild
  refine ⟨n, hn, fun s d v ctx o t hs h => ⟨fun hp => validator_isLater (hpend ▸ hp) h, ?_⟩⟩
  intro y u hy
  cases validator_gives h hy with
  | missing => exact .inl ⟨rfl, by rw [hreq], rfl⟩
  | null hoff =>
    rw [hoffer] at hoff
    exact .inr (.inl ⟨rfl, by revert hoff; cases spec.nullable <;> simp, by rw [hnull], rfl⟩)
  | checked hmissing hnone hg =>
    refine .inr (.inr ⟨hmissing, fun hv => by simpa [hoffer] using hnone hv, ?_⟩)
    rw [hfield] at hg
    -- the check is the type's own, or the custom node built over it
    cases hr : spec.custom with
    | none =>
      rw [hplain hr] at hg
      exact .plain hg
    | some r => exact Gives.custom (hs.trans (hcustom r hr)) hg

end Run

/-- A text field whose rule, a coroutine function, accepts only the text `a`. -/
def textRule : Spec where
  type := .primitive .string
  min := .none
  max := .none
  custom := some (.rule (.coroutine (.equals (.str "a") (.bool false))))

/-- The validator of `textRule` built into an empty store: the custom node `1` over the
membership check `0`, answering later on every value. -/
def textRuleValidator : Validator where
  field := some "f"
  check := 1
  required := false
  nullable := none
  offersNone := false
  alwaysPending := true

/-- The store the validator of `textRule` is built into. -/
def textRuleStore : Store := ((Build.validator (some "f") textRule none).run.run {}).2

/-- The validator of `textRule`, built and run: on the text `b` it answers later, and awaiting
it runs the rule, whose `False` reads as `invalid`. -/
theorem field_validator_gives_textRule :
    (Build.validator (some "f") textRule none).run.run {} = (.ok textRuleValidator, textRuleStore) ∧
    ∃ n, (∃ t, (Build.tagCheck Build.depth textRule.type (some "f") textRule none).run.run {} =
        (.ok n, t)) ∧
      (∀ (s : Store) (d : Nat) (v : Value) (ctx : Option Nat) (o : Outcome) (t : Store),
        s.checks[textRuleValidator.check]? = textRuleStore.checks[textRuleValidator.check]? →
        (Run.validator d textRuleValidator v ctx).run.run s = (.ok o, t) →
        ((textRule.custom.map Build.isCoroutineRule).getD false = true → Run.Outcome.isLater o = true) ∧
        ∀ y u, o.Settles t y u →
          (v = .missing ∧ y = (if textRule.required then .str "required" else .none) ∧ u = s) ∨
          (v = .none ∧ (textRule.nullable.isSome || !textRule.type.checksNull) = true ∧
            y = (if textRule.nullable == some false then .str "isNull" else .none) ∧ u = s) ∨
          (v ≠ .missing ∧ (v = .none → textRule.nullable = none ∧ textRule.type.checksNull = true) ∧
            Run.RuledGives s n v ctx ((some "f").getD "") textRule.custom y u)) ∧
      (Run.validator 3 textRuleValidator (.str "b") none).run.run textRuleStore =
        (.ok (.later (.chain (.rule (.equals (.str "a") (.bool false)) (.str "b")) .interpret)),
          textRuleStore) ∧
      Outcome.Settles textRuleStore
        (.later (.chain (.rule (.equals (.str "a") (.bool false)) (.str "b")) .interpret))
        (.str "invalid") textRuleStore ∧
      Run.RuledGives textRuleStore n (.str "b") none "f" textRule.custom (.str "invalid")
        textRuleStore := by
  have hbuild : (Build.validator (some "f") textRule none).run.run {} =
      (.ok textRuleValidator, textRuleStore) := Prod.ext (by cbv) rfl
  have hrun : (Run.validator 3 textRuleValidator (.str "b") none).run.run textRuleStore =
      (.ok (.later (.chain (.rule (.equals (.str "a") (.bool false)) (.str "b")) .interpret)),
        textRuleStore) := by cbv
  -- the event loop runs the rule on `b` and interprets its `False`
  have hsettles : Outcome.Settles textRuleStore
      (.later (.chain (.rule (.equals (.str "a") (.bool false)) (.str "b")) .interpret))
      (.str "invalid") textRuleStore := .later (n := 2) (by cbv)
  obtain ⟨n, hn, hgives⟩ := Run.field_validator_gives hbuild
  refine ⟨hbuild, n, hn, hgives, hrun, hsettles, ?_⟩
  -- the text `b` is neither absent nor none, so the check and the rule decide
  rcases (hgives textRuleStore 3 (.str "b") none _ _ rfl hrun).2 _ _ hsettles with
    ⟨hmissing, -⟩ | ⟨hnone, -⟩ | ⟨-, -, hruled⟩
  · cases hmissing
  · cases hnone
  · exact hruled

end Schematic
