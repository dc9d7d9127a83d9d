import Mathlib
import Schematic.Proofs.Validators

/-!
# Union checks

A union check tries its candidates in order, each with its own nullability and its own check
(built from the candidate's own spec and custom rule), and stops at the first that passes. None
never reaches a candidate's check: a candidate with `nullable` true accepts it and any other
refuses it with `invalidType`. Every other value is checked with no context, so no candidate
writes into the caller's. A pending candidate is awaited before the next one starts. When none
passes, the union reports the first code that is not `invalidType`, or `invalidType`
(`Run.triedCode`).

* `Run.CandidateGives`, `Run.TriesGive`: one candidate, and the candidates in order;
* `Run.attempts_gives`: the candidate loop, on both paths, is such a sequence, because it resumes
  after a pending candidate at the next index with the same error;
* **`Run.union_field_gives`**: the check built for a union, run and awaited; as a field's type,
  a union is offered none exactly when the field leaves `nullable` unset.
-/

namespace Schematic

namespace Run

/-! ### The union's code -/

/-- The code a union reports for the codes its candidates gave in order, after the error `error`
kept so far: no code once one passed; otherwise `error` when it is a code, else the first code
that is not `invalidType`, or `invalidType`. -/
def triedCode (error : Value) (codes : List Value) : Value :=
  if codes.any (fun c => !c.truthy) then .none
  else if error.truthy then error
  else (codes.find? (fun c => !c.same invalidType)).getD invalidType

theorem triedCode_nil (error : Value) :
    triedCode error [] = if error.truthy then error else invalidType := by
  simp [triedCode]

theorem triedCode_pass {error code : Value} (h : code.truthy = false) :
    triedCode error [code] = .none := by
  simp [triedCode, h]

/-- After a failed code the union keeps its error if it has one, and otherwise takes the code
unless it is `invalidType`. -/
theorem triedCode_next {error code : Value} (codes : List Value) (h : code.truthy = true) :
    triedCode (if !error.truthy && !code.same invalidType then code else error) codes =
      triedCode error (code :: codes) := by
  by_cases he : error.truthy = true
  · simp [triedCode, h, he]
  · by_cases hs : code.same invalidType = true
    · simp [triedCode, h, he, hs]
    · simp [triedCode, h, he, hs]

/-- A union passes exactly when one of its candidates passed: every code it can report
otherwise is a failure. -/
theorem triedCode_eq_none_iff (codes : List Value) :
    triedCode .none codes = .none ↔ codes.any (fun c => !c.truthy) = true := by
  by_cases hpass : codes.any (fun c => !c.truthy) = true
  · simp [triedCode, hpass]
  · -- no candidate passed: the code reported failed, as every one did, and none is no failure
    have hall : ∀ c ∈ codes, c.truthy = true := by simpa using hpass
    have hnone : Value.none.truthy = false := rfl
    simp only [triedCode, hpass, hnone, Bool.false_eq_true, if_false, iff_false]
    cases hfind : codes.find? (fun c => !c.same invalidType) with
    | none => simp [invalidType]
    | some c =>
      intro h
      have hc := hall c (List.mem_of_find?_eq_some hfind)
      rw [Option.getD_some] at h
      rw [h, hnone] at hc
      exact Bool.false_ne_true hc

/-! ### Trying the candidates one after another -/

/-- `CandidateGives s v path c code t`: the union candidate `c`, its nullability and its check,
tried on `v` under `path` and awaited, gives `code` from `s` to `t`. None never reaches the
check; any other value is checked with no context. -/
inductive CandidateGives (s : Store) (v : Value) (path : String) :
    Option Bool × Nat → Value → Store → Prop
  | null {c : Option Bool × Nat} (hv : v = .none) :
      CandidateGives s v path c (if c.1 == some true then .none else invalidType) s
  | checked {c : Option Bool × Nat} {code : Value} {t : Store} (hv : v ≠ .none)
      (h : Gives s c.2 v none path code t) : CandidateGives s v path c code t

/-- `TriesGive v path cs s codes t`: the candidates `cs`, tried on `v` in order and each awaited
before the next starts, gave `codes` from `s` to `t`: failures, and a last code that passed
where the trying stopped, if one did. -/
inductive TriesGive (v : Value) (path : String) :
    List (Option Bool × Nat) → Store → List Value → Store → Prop
  | nil {s : Store} : TriesGive v path [] s [] s
  | pass {c : Option Bool × Nat} {more : List (Option Bool × Nat)} {s t : Store} {code : Value}
      (h : CandidateGives s v path c code t) (hpass : code.truthy = false) :
      TriesGive v path (c :: more) s [code] t
  | next {c : Option Bool × Nat} {more : List (Option Bool × Nat)} {s t u : Store}
      {code : Value} {codes : List Value} (h : CandidateGives s v path c code t)
      (hfail : code.truthy = true) (hmore : TriesGive v path more t codes u) :
      TriesGive v path (c :: more) s (code :: codes) u

/-- No candidate is tried twice or after the trying stopped. -/
theorem TriesGive.length_le {v : Value} {path : String} {cs : List (Option Bool × Nat)}
    {s : Store} {codes : List Value} {t : Store} (h : TriesGive v path cs s codes t) :
    codes.length ≤ cs.length := by
  induction h with
  | nil => rfl
  | pass => simp
  | next _ _ _ ih => simpa using ih

/-- **The candidate loop, on both paths.** Run from index `i` over the candidates left, and
awaited, the loop tries each candidate in turn, awaiting a pending one before it tries the next,
and gives the union's code after the error `error`. The loop resumes at the index after the
pending candidate because the candidates left are always those from that index. -/
theorem attempts_gives {all : List (Option Bool × Nat)} {v : Value} {path : String}
    (rest : List (Option Bool × Nat)) :
    ∀ (i d : Nat) (error : Value) {s t u : Store} {o : Outcome} {y : Value},
      all.drop i = rest →
      (attempts (fun node => check d node v none path) all v path i rest error).run.run s =
        (.ok o, t) → o.Settles t y u →
      ∃ codes, TriesGive v path rest s codes u ∧ y = triedCode error codes := by
  induction rest with
  | nil =>
    intro i d error s t u o y _ h hy
    rw [attempts.eq_1] at h
    cases h
    obtain ⟨rfl, rfl⟩ := Outcome.Settles.now_iff.mp hy
    exact ⟨[], .nil, (triedCode_nil error).symm⟩
  | cons c more ih =>
    intro i d error s t u o y hdrop h hy
    have hmore : all.drop (i + 1) = more := by rw [← List.tail_drop, hdrop, List.tail_cons]
    -- once the candidate gave its code, the loop stops on a pass and goes on at `i + 1` otherwise
    have hnext : ∀ (d' : Nat) {code : Value} {t₁ t' : Store} {o' : Outcome},
        CandidateGives s v path c code t₁ →
        (resume d' (.attempts all v path i error) code).run.run t₁ = (.ok o', t') →
        o'.Settles t' y u →
        ∃ codes, TriesGive v path (c :: more) s codes u ∧ y = triedCode error codes := by
      intro d' code t₁ t' o' hc h hy
      rw [resume, hmore] at h
      dsimp only at h
      cases hcode : code.truthy
      · simp only [hcode, Bool.not_false, ↓reduceIte] at h
        cases h
        obtain ⟨rfl, rfl⟩ := Outcome.Settles.now_iff.mp hy
        exact ⟨[code], .pass hc hcode, (triedCode_pass hcode).symm⟩
      · have hfail : code.truthy = true := hcode
        simp only [hcode, Bool.not_true, Bool.false_eq_true, ↓reduceIte] at h
        obtain ⟨codes, hcodes, rfl⟩ := ih (i + 1) d' _ hmore h hy
        exact ⟨code :: codes, .next hc hfail hcodes, triedCode_next codes hfail⟩
    rw [attempts.eq_def] at h
    dsimp only at h
    split at h
    · -- none goes to the candidate's own nullability, at once
      obtain ⟨a, t₁, ha, h⟩ := ok_of_bind h
      cases ha
      exact hnext d (.null rfl) (by rw [resume, hmore]; exact h) hy
    · rename_i hv
      obtain ⟨a, t₁, ha, h⟩ := ok_of_bind h
      cases a with
      | now code =>
        exact hnext d (.checked hv (.of_now ha)) (by rw [resume, hmore]; exact h) hy
      | later c' =>
        cases h
        obtain ⟨code, t₂, hc, o', t', ho', hy'⟩ := hy.chain
        exact hnext _ (.checked hv (.of_later ha hc)) ho' hy'

/-- **A union check, run and awaited.** It tries its candidates from the first, with no error
kept yet. -/
theorem union_gives {s : Store} {node : Nat} {cs : List (Option Bool × Nat)}
    (hnode : s.checks[node]? = some (.union cs)) {d : Nat} {v : Value} {ctx : Option Nat}
    {path : String} {o : Outcome} {t u : Store} {y : Value}
    (h : (check (d + 1) node v ctx path).run.run s = (.ok o, t)) (hy : o.Settles t y u) :
    ∃ codes, TriesGive v path cs s codes u ∧ y = triedCode .none codes := by
  rw [check.eq_def, run_bind_of_eq (Store.run_check _ _), Store.at!_of_getElem? hnode] at h
  exact attempts_gives cs 0 d .none List.drop_zero h hy

end Run

/-- Each candidate of a union is built as a field of its own type, with its own spec and custom
rule, and keeps its own nullability. -/
theorem Build.candidateChecks_built {fuel : Nat} {field : Option String} {owner : Option Nat} :
    ∀ {specs : List Spec} {s t : Store} {cs : List (Option Bool × Nat)},
      (Build.candidateChecks fuel specs field owner).run.run s = (.ok cs, t) →
      List.Forall₂ (fun c p => p.1 = c.nullable ∧
        ∃ s' t', (Build.factory fuel c.type field c owner c.custom).run.run s' = (.ok p.2, t'))
        specs cs
  | [], s, t, cs, h => by
    rw [Build.candidateChecks] at h
    cases h
    exact .nil
  | c :: rest, s, t, cs, h => by
    rw [Build.candidateChecks] at h
    obtain ⟨n, t₁, hn, h⟩ := Run.ok_of_bind h
    obtain ⟨cs', t₂, hcs, h⟩ := Run.ok_of_bind h
    cases h
    exact .cons ⟨rfl, s, t₁, hn⟩ (candidateChecks_built hcs)

/-- The check of a union field is a union node over its candidates' checks. -/
theorem Build.tagCheck_anyOf {fuel id : Nat} {field : Option String} {spec : Spec}
    {owner : Option Nat} {s t : Store} {node : Nat}
    (h : (Build.tagCheck (fuel + 1) (.anyOf id) field spec owner).run.run s = (.ok node, t)) :
    ∃ cs, t.checks[node]? = some (.union cs) ∧
      List.Forall₂ (fun c p => p.1 = c.nullable ∧
        ∃ s' t', (Build.factory fuel c.type field c owner c.custom).run.run s' = (.ok p.2, t'))
        (Store.at! s.unions id).candidates cs := by
  rw [Build.tagCheck] at h
  rw [Run.run_bind_of_eq (Store.run_union _ _)] at h
  obtain ⟨cs, t', hcs, h⟩ := Run.ok_of_bind h
  rw [Store.run_addCheck] at h
  cases h
  exact ⟨cs, Array.getElem?_push_size, Build.candidateChecks_built hcs⟩

namespace Run

/-- **Union fields.** The check built for a union tag is a union node whose candidates are the
tag's candidates, in order, each with its own nullability and with the check built from its own
spec and custom rule. Run on any value, from any later store, and awaited when it answers later,
it gives what `TriesGive` says: the candidates tried in order, none after the first that passed,
each awaited before the next, with no context; and the code `triedCode .none` of what they gave,
no code exactly when one passed (`triedCode_eq_none_iff`). As the type of a field, the union is
offered none exactly when the field leaves `nullable` unset. -/
theorem union_field_gives {fuel id : Nat} {field : Option String} {spec : Spec}
    {owner : Option Nat} {s₀ s₁ : Store} {node : Nat}
    (hbuild : (Build.tagCheck (fuel + 1) (.anyOf id) field spec owner).run.run s₀ =
      (.ok node, s₁)) :
    ∃ cs, s₁.checks[node]? = some (.union cs) ∧
      List.Forall₂ (fun c p => p.1 = c.nullable ∧
        ∃ s t, (Build.factory fuel c.type field c owner c.custom).run.run s = (.ok p.2, t))
        (Store.at! s₀.unions id).candidates cs ∧
      (∀ (s : Store) (d : Nat) (v : Value) (ctx : Option Nat) (path : String) (o : Outcome)
        (t u : Store) (y : Value),
        s.checks[node]? = s₁.checks[node]? →
        (check d node v ctx path).run.run s = (.ok o, t) → o.Settles t y u →
        ∃ codes, TriesGive v path cs s codes u ∧ y = triedCode .none codes) ∧
      ∀ (val : Validator) (s t : Store), spec.type = .anyOf id →
        (Build.validator field spec owner).run.run s = (.ok val, t) →
        val.offersNone = spec.nullable.isNone := by
  obtain ⟨cs, hnode, hcands⟩ := Build.tagCheck_anyOf hbuild
  refine ⟨cs, hnode, hcands, fun s d v ctx path o t u y hs h hy => ?_, ?_⟩
  · cases d with
    | zero => exact (check_zero h).elim
    | succ d => exact union_gives (hs.trans hnode) h hy
  · intro val s t htype hval
    obtain ⟨-, -, -, hoffer, -⟩ := Build.validator_built hval
    rw [hoffer, htype]
    simp [Tag.checksNull]

end Run

/-- A store with one union tag (`0`) of text, or an integer that may be none. -/
def textOrNumber : Store where
  unions := #[{
    candidates := [{ type := .primitive .string, min := .none, max := .none },
      { type := .primitive .integer, nullable := some true, min := .none, max := .none }]
    name := "anyOf(string, integer)" }]

/-- A field of the union `0`: its candidates are checked at handles `0` and `1`, the second
accepting none, and the union itself at `2`. -/
def textOrNumberSpec : Spec where
  type := .anyOf 0
  min := .none
  max := .none

/-- The store `textOrNumber` after building the union field's check at handle `2`. -/
def textOrNumberBuilt : Store :=
  ((Build.tagCheck 2 (.anyOf 0) (some "f") textOrNumberSpec none).run.run textOrNumber).2

/-- The union field of `textOrNumber`, built and run: the integer `3` is refused by the text
candidate and accepted by the integer one, so the union answers no code. -/
theorem union_field_gives_textOrNumber :
    (Build.tagCheck 2 (.anyOf 0) (some "f") textOrNumberSpec none).run.run textOrNumber =
      (.ok 2, textOrNumberBuilt) ∧
    ∃ cs, textOrNumberBuilt.checks[2]? = some (.union cs) ∧
      List.Forall₂ (fun c p => p.1 = c.nullable ∧
        ∃ s t, (Build.factory 1 c.type (some "f") c none c.custom).run.run s = (.ok p.2, t))
        (Store.at! textOrNumber.unions 0).candidates cs ∧
      (∀ (s : Store) (d : Nat) (v : Value) (ctx : Option Nat) (path : String) (o : Outcome)
        (t u : Store) (y : Value),
        s.checks[2]? = textOrNumberBuilt.checks[2]? →
        (Run.check d 2 v ctx path).run.run s = (.ok o, t) → o.Settles t y u →
        ∃ codes, Run.TriesGive v path cs s codes u ∧ y = Run.triedCode .none codes) ∧
      (∀ (val : Validator) (s t : Store), textOrNumberSpec.type = .anyOf 0 →
        (Build.validator (some "f") textOrNumberSpec none).run.run s = (.ok val, t) →
        val.offersNone = textOrNumberSpec.nullable.isNone) ∧
      (Run.check 3 2 (.int 3) none "f").run.run textOrNumberBuilt =
        (.ok (.now .none), textOrNumberBuilt) ∧
      ∃ codes, Run.TriesGive (.int 3) "f" cs textOrNumberBuilt codes textOrNumberBuilt ∧
        Value.none = Run.triedCode .none codes := by
  have hbuild : (Build.tagCheck 2 (.anyOf 0) (some "f") textOrNumberSpec none).run.run
      textOrNumber = (.ok 2, textOrNumberBuilt) := Prod.ext (by cbv) rfl
  have hrun : (Run.check 3 2 (.int 3) none "f").run.run textOrNumberBuilt =
      (.ok (.now .none), textOrNumberBuilt) := by cbv
  obtain ⟨cs, hnode, hcands, hgives, hoffers⟩ := Run.union_field_gives hbuild
  exact ⟨hbuild, cs, hnode, hcands, hgives, hoffers, hrun,
    hgives textOrNumberBuilt 3 (.int 3) none "f" _ _ _ _ rfl hrun .now⟩

end Schematic
