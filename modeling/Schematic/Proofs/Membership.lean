import Mathlib
import Schematic.Proofs.Arrays
import Schematic.Proofs.Unions

/-!
# Membership and the compiled check

`Validation.isMember` asks whether a value belongs to a tag by walking the tag; a field's
validator answers with the check built for the tag. On *plain* tags, built from primitives, the
wildcard, unions and arrays with no bounds, array options, custom rule or `nullable` on any
union candidate, both answer by one relation, `Holds`, and differ in one point only: whether a
union may take none because one of its candidates' types does. Membership lets it; the compiled
check never does, since it offers none to a candidate through the candidate's own `nullable`
alone. So the two agree on every value with no none inside (`Holds.of_noNone`), and part on a
list holding none checked against a union with a wildcard candidate
(`validator_refuses_none_element`).

* `Holds s noneInUnions t v`: `v` belongs to the plain tag `t`;
* `Validation.isMember_holds`: membership answers `Holds s true` and leaves the store alone;
* `PlainNode`, `Build.factory_plain`: the checks built for a plain tag;
* `PlainNode.answers`: such a check answers at once, `Holds s false`;
* **`Run.plain_validator_holds`**: the validator of a plain field, and membership, from the
  store the validator was built into.
-/

namespace Schematic

/-! ### Plain tags and what belongs to them -/

/-- A spec that adds nothing to its type: no bounds, no array options, no custom rule and no
`nullable`. -/
def PlainSpec (spec : Spec) : Prop :=
  spec.min = .none ∧ spec.max = .none ∧ spec.arrayOptions = none ∧ spec.custom = none ∧
    spec.nullable = none

/-- `PlainTag s t`: `t` is built from primitives, the wildcard, unions and arrays of `s`, every
union candidate a plain spec. -/
inductive PlainTag (s : Store) : Tag → Prop
  | primitive (p : Primitive) : PlainTag s (.primitive p)
  | any : PlainTag s .any
  | anyOf {id : Nat} {u : UnionTag} (hu : s.unions[id]? = some u)
      (hplain : ∀ c ∈ u.candidates, PlainSpec c) (hc : ∀ c ∈ u.candidates, PlainTag s c.type) :
      PlainTag s (.anyOf id)
  | arrayOf {id : Nat} {a : ArrayTag} (ha : s.arrays[id]? = some a) (he : PlainTag s a.element) :
      PlainTag s (.arrayOf id)

/-- `Holds s noneInUnions t v`: `v` belongs to the plain tag `t`; a union takes none for its
candidates' types only when `noneInUnions` is set. -/
inductive Holds (s : Store) (noneInUnions : Bool) : Tag → Value → Prop
  | primitive {p : Primitive} {v : Value} (h : p.test v = true) :
      Holds s noneInUnions (.primitive p) v
  | any {v : Value} : Holds s noneInUnions .any v
  | anyOf {id : Nat} {u : UnionTag} {c : Spec} {v : Value} (hu : s.unions[id]? = some u)
      (hc : c ∈ u.candidates) (hv : noneInUnions = true ∨ v ≠ .none)
      (h : Holds s noneInUnions c.type v) : Holds s noneInUnions (.anyOf id) v
  | arrayOf {id : Nat} {a : ArrayTag} {v : Value} {xs : List Value}
      (ha : s.arrays[id]? = some a) (hv : v.items? = some xs)
      (h : ∀ x ∈ xs, Holds s noneInUnions a.element x) : Holds s noneInUnions (.arrayOf id) v

/-- A value with no none in it, at any depth of its items. -/
inductive NoNone : Value → Prop
  | items {v : Value} {xs : List Value} (hv : v.items? = some xs) (h : ∀ x ∈ xs, NoNone x) :
      NoNone v
  | other {v : Value} (hv : v.items? = none) (hn : v ≠ .none) : NoNone v

theorem NoNone.ne_none {v : Value} (h : NoNone v) : v ≠ .none := by
  cases h with
  | items hv _ =>
    rintro rfl
    cases hv
  | other _ hn => exact hn

namespace Holds

variable {s : Store} {f : Bool} {v : Value}

theorem primitive_iff {p : Primitive} : Holds s f (.primitive p) v ↔ p.test v = true := by
  constructor
  · intro h
    cases h with
    | primitive h => exact h
  · exact .primitive

theorem anyOf_iff {id : Nat} {u : UnionTag} (hu : s.unions[id]? = some u) :
    Holds s f (.anyOf id) v ↔ (f = true ∨ v ≠ .none) ∧ ∃ c ∈ u.candidates, Holds s f c.type v := by
  constructor
  · intro h
    cases h with
    | anyOf hu' hc hv h =>
      rw [hu] at hu'
      cases hu'
      exact ⟨hv, _, hc, h⟩
  · rintro ⟨hv, c, hc, h⟩
    exact .anyOf hu hc hv h

theorem arrayOf_iff {id : Nat} {a : ArrayTag} (ha : s.arrays[id]? = some a) :
    Holds s f (.arrayOf id) v ↔ ∃ xs, v.items? = some xs ∧ ∀ x ∈ xs, Holds s f a.element x := by
  constructor
  · intro h
    cases h with
    | arrayOf ha' hv h =>
      rw [ha] at ha'
      cases ha'
      exact ⟨_, hv, h⟩
  · rintro ⟨xs, hv, h⟩
    exact .arrayOf ha hv h

/-- What the compiled check accepts, membership accepts. -/
theorem of_false {t : Tag} (h : Holds s false t v) : Holds s true t v := by
  induction h with
  | primitive h => exact .primitive h
  | any => exact .any
  | anyOf hu hc _ _ ih => exact .anyOf hu hc (.inl rfl) ih
  | arrayOf ha hv _ ih => exact .arrayOf ha hv ih

/-- On a value with no none inside, membership accepts only what the compiled check accepts. -/
theorem of_noNone {t : Tag} (h : Holds s true t v) (hv : NoNone v) : Holds s false t v := by
  induction h with
  | primitive h => exact .primitive h
  | any => exact .any
  | anyOf hu hc _ _ ih => exact .anyOf hu hc (.inr hv.ne_none) (ih hv)
  | arrayOf ha hxs _ ih =>
    -- the items of a value with no none inside have none inside either
    cases hv with
    | items hv' hitems =>
      rw [hxs] at hv'
      cases hv'
      exact .arrayOf ha hxs fun x hx => ih x hx (hitems x hx)
    | other hv' _ =>
      rw [hxs] at hv'
      cases hv'

end Holds

/-! ### Membership -/

namespace Run

/-- `anyM` over tests that leave the store alone answers whether some item passes. -/
theorem anyM_stays {α : Type} {s : Store} {f : α → Run Bool} {P : α → Prop} :
    ∀ {xs : List α}, (∀ x ∈ xs, ∀ b t, (f x).run.run s = (.ok b, t) → t = s ∧ (b = true ↔ P x)) →
      ∀ {b : Bool} {t : Store}, (xs.anyM f).run.run s = (.ok b, t) →
        t = s ∧ (b = true ↔ ∃ x ∈ xs, P x)
  | [], _, b, t, h => by
    rw [List.anyM_nil] at h
    cases h
    simp
  | x :: xs, hf, b, t, h => by
    rw [List.anyM_cons] at h
    obtain ⟨bx, t₁, hx, h⟩ := ok_of_bind h
    obtain ⟨rfl, hbx⟩ := hf x List.mem_cons_self bx t₁ hx
    cases bx with
    | true =>
      cases h
      exact ⟨rfl, iff_of_true rfl ⟨x, List.mem_cons_self, hbx.mp rfl⟩⟩
    | false =>
      obtain ⟨rfl, hrest⟩ := anyM_stays (fun y hy => hf y (List.mem_cons_of_mem _ hy)) h
      refine ⟨rfl, hrest.trans ⟨fun ⟨y, hy, hp⟩ => ⟨y, List.mem_cons_of_mem _ hy, hp⟩, ?_⟩⟩
      -- the first item failed, so the one that passes is later
      rintro ⟨y, hy, hp⟩
      rcases List.mem_cons.mp hy with rfl | hy
      · exact absurd (hbx.mpr hp) (by simp)
      · exact ⟨y, hy, hp⟩

/-- `allM` over tests that leave the store alone answers whether every item passes. -/
theorem allM_stays {α : Type} {s : Store} {f : α → Run Bool} {P : α → Prop} :
    ∀ {xs : List α}, (∀ x ∈ xs, ∀ b t, (f x).run.run s = (.ok b, t) → t = s ∧ (b = true ↔ P x)) →
      ∀ {b : Bool} {t : Store}, (xs.allM f).run.run s = (.ok b, t) →
        t = s ∧ (b = true ↔ ∀ x ∈ xs, P x)
  | [], _, b, t, h => by
    rw [List.allM_nil] at h
    cases h
    simp
  | x :: xs, hf, b, t, h => by
    rw [List.allM_cons] at h
    obtain ⟨bx, t₁, hx, h⟩ := ok_of_bind h
    obtain ⟨rfl, hbx⟩ := hf x List.mem_cons_self bx t₁ hx
    cases bx with
    | true =>
      obtain ⟨rfl, hrest⟩ := allM_stays (fun y hy => hf y (List.mem_cons_of_mem _ hy)) h
      refine ⟨rfl, hrest.trans ⟨fun hall y hy => ?_, fun hall y hy => hall y (List.mem_cons_of_mem _ hy)⟩⟩
      rcases List.mem_cons.mp hy with rfl | hy
      · exact hbx.mp rfl
      · exact hall y hy
    | false =>
      cases h
      -- the first item failed
      exact ⟨rfl, by simpa using fun hall => absurd (hbx.mpr hall) (by simp)⟩

end Run

namespace Validation

/-- **Membership on plain tags** answers `Holds s true` and leaves the store as it was. -/
theorem isMember_holds {s : Store} {t : Tag} (ht : PlainTag s t) :
    ∀ {d : Nat} {v : Value} {b : Bool} {u : Store}, (isMember d t v).run.run s = (.ok b, u) →
      u = s ∧ (b = true ↔ Holds s true t v) := by
  induction ht with
  | primitive p =>
    intro d v b u h
    rcases d with _ | d
    · cases h
    rw [isMember] at h
    cases h
    exact ⟨rfl, Holds.primitive_iff.symm⟩
  | any =>
    intro d v b u h
    rcases d with _ | d
    · cases h
    rw [isMember] at h
    cases h
    exact ⟨rfl, by simp [Holds.any]⟩
  | anyOf hu _ _ ih =>
    intro d v b u h
    rcases d with _ | d
    · cases h
    rw [isMember] at h
    rw [Run.run_bind_of_eq (Store.run_union _ _), Store.at!_of_getElem? hu] at h
    obtain ⟨rfl, hb⟩ := Run.anyM_stays (fun c hc b t h => ih c hc h) h
    exact ⟨rfl, hb.trans ⟨fun h => (Holds.anyOf_iff hu).mpr ⟨.inl rfl, h⟩,
      fun h => ((Holds.anyOf_iff hu).mp h).2⟩⟩
  | arrayOf ha _ ih =>
    intro d v b u h
    rcases d with _ | d
    · cases h
    rw [isMember] at h
    rw [Run.run_bind_of_eq (Store.run_array _ _), Store.at!_of_getElem? ha] at h
    rw [Holds.arrayOf_iff ha]
    split at h
    · rename_i hv
      cases h
      exact ⟨rfl, by simp [hv]⟩
    · rename_i xs hv
      obtain ⟨rfl, hb⟩ := Run.allM_stays (fun x _ b t h => ih h) h
      exact ⟨rfl, hb.trans (by simp [hv])⟩

end Validation

/-! ### Building a plain tag -/

/-- `t` is `s` with checks added after its own, and nothing else changed. -/
def Pushes (s t : Store) : Prop := ∃ new : Array Check, t = { s with checks := s.checks ++ new }

namespace Pushes

theorem refl (s : Store) : Pushes s s := ⟨#[], by simp⟩

theorem trans {s t u : Store} (h : Pushes s t) (h' : Pushes t u) : Pushes s u := by
  obtain ⟨n₁, rfl⟩ := h
  obtain ⟨n₂, rfl⟩ := h'
  exact ⟨n₁ ++ n₂, by simp [Array.append_assoc]⟩

theorem push (s : Store) (c : Check) : Pushes s { s with checks := s.checks.push c } :=
  ⟨#[c], by simp⟩

theorem unions {s t : Store} (h : Pushes s t) : t.unions = s.unions := by
  obtain ⟨_, rfl⟩ := h
  rfl

theorem arrays {s t : Store} (h : Pushes s t) : t.arrays = s.arrays := by
  obtain ⟨_, rfl⟩ := h
  rfl

theorem getElem? {s t : Store} (h : Pushes s t) {b : Nat} {c : Check}
    (hb : s.checks[b]? = some c) : t.checks[b]? = some c := by
  obtain ⟨new, rfl⟩ := h
  rw [Array.getElem?_append_left (Array.getElem?_eq_some_iff.mp hb).1]
  exact hb

end Pushes

/-- Adding checks keeps a tag plain: a plain tag reads no check. -/
theorem PlainTag.pushes {s t : Store} {tag : Tag} (h : PlainTag s tag) (hp : Pushes s t) :
    PlainTag t tag := by
  induction h with
  | primitive p => exact .primitive p
  | any => exact .any
  | anyOf hu hplain _ ih => exact .anyOf (hp.unions ▸ hu) hplain ih
  | arrayOf ha _ ih => exact .arrayOf (hp.arrays ▸ ha) ih

/-- `PlainNode s b t`: `b` is a check of `s` built for the plain tag `t`. -/
inductive PlainNode (s : Store) : Nat → Tag → Prop
  | member {b : Nat} {p : Primitive} (h : s.checks[b]? = some (.member p)) :
      PlainNode s b (.primitive p)
  | pass {b : Nat} (h : s.checks[b]? = some .pass) : PlainNode s b .any
  | union {b id : Nat} {u : UnionTag} {cs : List (Option Bool × Nat)}
      (h : s.checks[b]? = some (.union cs)) (hu : s.unions[id]? = some u)
      (hlen : cs.length = u.candidates.length) (hnull : ∀ x ∈ cs, x.1 = none)
      (hcs : ∀ x ∈ u.candidates.zip cs, PlainNode s x.2.2 x.1.type) : PlainNode s b (.anyOf id)
  | array {b id e : Nat} {a : ArrayTag} (h : s.checks[b]? = some (.array e none none))
      (ha : s.arrays[id]? = some a) (he : PlainNode s e a.element) : PlainNode s b (.arrayOf id)

/-- Adding checks keeps the checks built before. -/
theorem PlainNode.pushes {s t : Store} {b : Nat} {tag : Tag} (h : PlainNode s b tag)
    (hp : Pushes s t) : PlainNode t b tag := by
  induction h with
  | member h => exact .member (hp.getElem? h)
  | pass h => exact .pass (hp.getElem? h)
  | union h hu hlen hnull _ ih => exact .union (hp.getElem? h) (hp.unions ▸ hu) hlen hnull ih
  | array h ha _ ih => exact .array (hp.getElem? h) (hp.arrays ▸ ha) ih

namespace Build

/-- The candidates of a plain union, each built with its own plain spec. -/
theorem candidateChecks_plain {fuel : Nat}
    (hf : ∀ {tag field spec owner} {s t : Store} {b : Nat}, PlainSpec spec → PlainTag s tag →
      (factory fuel tag field spec owner none).run.run s = (.ok b, t) →
      Pushes s t ∧ PlainNode t b tag)
    {field : Option String} {owner : Option Nat} :
    ∀ {specs : List Spec} {s t : Store} {cs : List (Option Bool × Nat)},
      (∀ c ∈ specs, PlainSpec c) → (∀ c ∈ specs, PlainTag s c.type) →
      (candidateChecks fuel specs field owner).run.run s = (.ok cs, t) →
      Pushes s t ∧ cs.length = specs.length ∧ (∀ x ∈ cs, x.1 = none) ∧
        ∀ x ∈ specs.zip cs, PlainNode t x.2.2 x.1.type
  | [], s, t, cs, _, _, h => by
    rw [candidateChecks] at h
    cases h
    exact ⟨.refl s, rfl, by simp, by simp⟩
  | c :: rest, s, t, cs, hplain, htags, h => by
    rw [candidateChecks] at h
    obtain ⟨n, t₁, hn, h⟩ := Run.ok_of_bind h
    obtain ⟨cs', t₂, hcs, h⟩ := Run.ok_of_bind h
    cases h
    have hc : PlainSpec c := hplain c List.mem_cons_self
    rw [hc.2.2.2.1] at hn
    obtain ⟨hp₁, hnode⟩ := hf hc (htags c List.mem_cons_self) hn
    obtain ⟨hp₂, hlen, hnull, hnodes⟩ := candidateChecks_plain hf
      (fun c' hc' => hplain c' (List.mem_cons_of_mem _ hc'))
      (fun c' hc' => (htags c' (List.mem_cons_of_mem _ hc')).pushes hp₁) hcs
    refine ⟨hp₁.trans hp₂, by simp [hlen], ?_, ?_⟩
    · intro x hx
      rcases List.mem_cons.mp hx with rfl | hx
      · exact hc.2.2.2.2
      · exact hnull x hx
    · intro x hx
      rcases List.mem_cons.mp (by simpa using hx) with rfl | hx
      · exact hnode.pushes hp₂
      · exact hnodes x hx

/-- One level of building a plain tag, from the levels below. -/
theorem tagCheck_plain_succ {fuel : Nat}
    (hf : ∀ {tag field spec owner} {s t : Store} {b : Nat}, PlainSpec spec → PlainTag s tag →
      (factory fuel tag field spec owner none).run.run s = (.ok b, t) →
      Pushes s t ∧ PlainNode t b tag)
    {tag : Tag} {field : Option String} {spec : Spec} {owner : Option Nat} {s t : Store} {b : Nat}
    (hspec : PlainSpec spec) (htag : PlainTag s tag)
    (h : (tagCheck (fuel + 1) tag field spec owner).run.run s = (.ok b, t)) :
    Pushes s t ∧ PlainNode t b tag := by
  cases htag with
  | primitive p =>
    rw [tagCheck] at h
    rw [if_pos (by simp [hspec.1, hspec.2.1]), Store.run_addCheck] at h
    cases h
    exact ⟨.push s _, .member Array.getElem?_push_size⟩
  | any =>
    rw [tagCheck, Store.run_addCheck] at h
    cases h
    exact ⟨.push s _, .pass Array.getElem?_push_size⟩
  | anyOf hu hplain hc =>
    rw [tagCheck] at h
    rw [Run.run_bind_of_eq (Store.run_union _ _), Store.at!_of_getElem? hu] at h
    obtain ⟨cs, t₁, hcs, h⟩ := Run.ok_of_bind h
    rw [Store.run_addCheck] at h
    cases h
    obtain ⟨hp, hlen, hnull, hnodes⟩ := candidateChecks_plain hf hplain hc hcs
    exact ⟨hp.trans (.push _ _), .union Array.getElem?_push_size (hp.unions ▸ hu) hlen hnull
      fun x hx => (hnodes x hx).pushes (.push _ _)⟩
  | arrayOf ha he =>
    rw [tagCheck] at h
    dsimp only at h
    rw [Run.run_bind_of_eq (Store.run_array _ _), Store.at!_of_getElem? ha] at h
    obtain ⟨e, t₁, hel, h⟩ := Run.ok_of_bind h
    rw [hspec.2.2.1, Store.run_addCheck] at h
    cases h
    obtain ⟨hp, hnode⟩ := hf hspec he hel
    exact ⟨hp.trans (.push _ _),
      .array Array.getElem?_push_size (hp.arrays ▸ ha) (hnode.pushes (.push _ _))⟩

/-- **Building a plain tag** with a plain spec and no rule only adds checks, and the check it
answers is the plain node of the tag. -/
theorem factory_plain (fuel : Nat) :
    ∀ {tag field spec owner} {s t : Store} {b : Nat}, PlainSpec spec → PlainTag s tag →
      (factory fuel tag field spec owner none).run.run s = (.ok b, t) →
      Pushes s t ∧ PlainNode t b tag := by
  induction fuel with
  | zero =>
    intro tag field spec owner s t b _ _ h
    rw [factory, tagCheck] at h
    cases h
  | succ fuel ih =>
    intro tag field spec owner s t b hspec htag h
    rw [factory] at h
    obtain ⟨n, t₁, hn, h⟩ := Run.ok_of_bind h
    cases h
    exact tagCheck_plain_succ ih hspec htag hn

end Build

/-! ### Running the check of a plain tag -/

namespace Run

theorem none_truthy : Value.none.truthy = false := rfl

theorem invalidType_same_self : invalidType.same invalidType = true := by
  simp [invalidType, Value.same]

theorem invalidType_truthy : invalidType.truthy = true := by
  simp [invalidType, Value.truthy]

/-- A failed element after passed or failed ones leaves `invalidType`. -/
theorem worst_invalidType {failed : Value} (hf : failed = .none ∨ failed = invalidType) :
    worst failed invalidType = invalidType := by
  rcases hf with rfl | rfl
  · simp [worst, invalidType_truthy, invalidType_same, none_same_invalid]
  · simp [worst, invalidType_truthy, invalidType_same]

theorem worst_none (failed : Value) : worst failed .none = failed := by
  simp [worst, none_truthy]

/-- What the check at `b` answers, as the check of the plain tag `t`: at once, with the store
as it was, `invalidType` or no code, and no code exactly when `Holds s false t v`. -/
def PlainAnswers (s : Store) (b : Nat) (t : Tag) : Prop :=
  ∀ {d : Nat} {v : Value} {ctx : Option Nat} {path : String} {o : Outcome} {u : Store},
    (check d b v ctx path).run.run s = (.ok o, u) →
    u = s ∧ ∃ code, o = .now code ∧ (code = .none ∨ code = invalidType) ∧
      (code = .none ↔ Holds s false t v)

/-- The candidates of a plain union, tried in order, answer at once: no code exactly when the
value is not none and some candidate holds it. -/
theorem attempts_plain {s : Store} {all : List (Option Bool × Nat)} {v : Value} {path : String}
    {d : Nat} :
    ∀ (specs : List Spec) (rest : List (Option Bool × Nat)) {i : Nat} {o : Outcome} {u : Store},
      rest.length = specs.length → (∀ x ∈ rest, x.1 = none) →
      (∀ x ∈ specs.zip rest, PlainAnswers s x.2.2 x.1.type) →
      (attempts (fun node => check d node v none path) all v path i rest .none).run.run s =
        (.ok o, u) →
      u = s ∧ ∃ code, o = .now code ∧ (code = .none ∨ code = invalidType) ∧
        (code = .none ↔ v ≠ .none ∧ ∃ c ∈ specs, Holds s false c.type v)
  | [], [], i, o, u, _, _, _, h => by
    rw [attempts.eq_1] at h
    cases h
    exact ⟨rfl, _, rfl, .inr (by simp [none_truthy]), by simp [none_truthy, invalidType]⟩
  | c :: specs, x :: rest, i, o, u, hlen, hnull, hcs, h => by
    have hx : x.1 = none := hnull x List.mem_cons_self
    -- a failed candidate answers `invalidType`, which keeps the error at none
    have hnext : ∀ {o : Outcome} {u : Store},
        (if (!invalidType.truthy) = true then (pure (.now .none) : Run Outcome)
          else attempts (fun node => check d node v none path) all v path (i + 1) rest
            (if (!Value.none.truthy && !invalidType.same invalidType) = true then invalidType
              else .none)).run.run s = (.ok o, u) →
        u = s ∧ ∃ code, o = .now code ∧ (code = .none ∨ code = invalidType) ∧
          (code = .none ↔ v ≠ .none ∧ ∃ c ∈ specs, Holds s false c.type v) := by
      intro o u h
      simp only [invalidType_truthy, invalidType_same_self, Bool.not_true, Bool.and_false,
        Bool.false_eq_true, ↓reduceIte] at h
      exact attempts_plain specs rest (by simpa using hlen)
        (fun y hy => hnull y (List.mem_cons_of_mem _ hy))
        (fun y hy => hcs y (List.mem_cons_of_mem _ hy)) h
    rw [attempts.eq_def] at h
    dsimp only at h
    split at h
    · -- none reaches no candidate's check, and no candidate is nullable
      obtain ⟨a, t₁, ha, h⟩ := ok_of_bind h
      cases ha
      rw [hx] at h
      obtain ⟨rfl, code, rfl, hcode, hiff⟩ := hnext h
      exact ⟨rfl, code, rfl, hcode, hiff.trans (by simp)⟩
    · rename_i hv
      obtain ⟨a, t₁, ha, h⟩ := ok_of_bind h
      obtain ⟨ht₁, code₁, rfl, hcode₁, hiff₁⟩ := hcs (c, x) (by simp) ha
      subst t₁
      rcases hcode₁ with rfl | rfl
      · -- the candidate passed: the union passes, trying no other
        cases h
        exact ⟨rfl, _, rfl, .inl rfl, iff_of_true rfl ⟨hv, c, List.mem_cons_self, hiff₁.mp rfl⟩⟩
      · obtain ⟨rfl, code, rfl, hcode, hiff⟩ := hnext h
        refine ⟨rfl, code, rfl, hcode, hiff.trans ?_⟩
        have hc : ¬Holds _ false c.type v := fun hc => by simpa [invalidType] using hiff₁.mpr hc
        constructor
        · rintro ⟨hv, c', hc', h⟩
          exact ⟨hv, c', List.mem_cons_of_mem _ hc', h⟩
        · rintro ⟨hv, c', hc', h⟩
          rcases List.mem_cons.mp hc' with rfl | hc'
          · exact absurd h hc
          · exact ⟨hv, c', hc', h⟩
  | [], _ :: _, _, _, _, hlen, _, _, _ => by simp at hlen
  | _ :: _, [], _, _, _, hlen, _, _, _ => by simp at hlen

/-- The elements of an array, checked by a plain check, answer at once: no code exactly when
none failed before and every element left holds. -/
theorem elements_plain {s : Store} {e : Nat} {t : Tag} (he : PlainAnswers s e t)
    {items : List Value} {ctx : Option Nat} {path : String} {d : Nat} :
    ∀ (rest : List Value) {i : Nat} {failed : Value} {o : Outcome} {u : Store},
      (failed = .none ∨ failed = invalidType) →
      (elements (fun x p => check d e x ctx p) e items ctx path i rest failed).run.run s =
        (.ok o, u) →
      u = s ∧ ∃ code, o = .now code ∧ (code = .none ∨ code = invalidType) ∧
        (code = .none ↔ failed = .none ∧ ∀ x ∈ rest, Holds s false t x)
  | [], i, failed, o, u, hf, h => by
    rw [elements.eq_1] at h
    cases h
    exact ⟨rfl, _, rfl, hf, by simp⟩
  | x :: more, i, failed, o, u, hf, h => by
    rw [elements.eq_def] at h
    dsimp only at h
    obtain ⟨a, t₁, ha, h⟩ := ok_of_bind h
    obtain ⟨ht₁, code₁, rfl, hcode₁, hiff₁⟩ := he ha
    subst t₁
    dsimp only at h
    rcases hcode₁ with rfl | rfl
    · rw [worst_none] at h
      obtain ⟨rfl, code, rfl, hcode, hiff⟩ := elements_plain he more hf h
      exact ⟨rfl, code, rfl, hcode, hiff.trans (by simp [hiff₁.mp rfl])⟩
    · -- a failed element makes the array fail, and the loop still checks the rest
      rw [worst_invalidType hf] at h
      obtain ⟨rfl, code, rfl, hcode, hiff⟩ := elements_plain he more (.inr rfl) h
      have hx : ¬Holds _ false t x := fun hx => by simpa [invalidType] using hiff₁.mpr hx
      exact ⟨rfl, code, rfl, hcode, hiff.trans (by simp [invalidType, hx])⟩

end Run

/-- **A plain check** answers at once, leaves the store alone, and passes exactly the values that
hold with no none taken by a union. -/
theorem PlainNode.answers {s : Store} {b : Nat} {t : Tag} (h : PlainNode s b t) :
    Run.PlainAnswers s b t := by
  induction h with
  | member hb =>
    intro d v ctx path o u h
    rcases d with _ | d
    · exact (Run.check_zero h).elim
    rw [Run.check.eq_def, Run.run_bind_of_eq (Store.run_check _ _), Store.at!_of_getElem? hb] at h
    cases h
    refine ⟨rfl, _, rfl, ?_, ?_⟩
    · split_ifs <;> simp
    · rw [Holds.primitive_iff]
      split_ifs with hp <;> simp [hp, Run.invalidType]
  | pass hb =>
    intro d v ctx path o u h
    rcases d with _ | d
    · exact (Run.check_zero h).elim
    rw [Run.check.eq_def, Run.run_bind_of_eq (Store.run_check _ _), Store.at!_of_getElem? hb] at h
    cases h
    exact ⟨rfl, _, rfl, .inl rfl, by simp [Holds.any]⟩
  | union hb hu hlen hnull _ ih =>
    intro d v ctx path o u h
    rcases d with _ | d
    · exact (Run.check_zero h).elim
    rw [Run.check.eq_def, Run.run_bind_of_eq (Store.run_check _ _), Store.at!_of_getElem? hb] at h
    obtain ⟨rfl, code, rfl, hcode, hiff⟩ := Run.attempts_plain _ _ hlen hnull ih h
    refine ⟨rfl, code, rfl, hcode, hiff.trans ?_⟩
    rw [Holds.anyOf_iff hu]
    simp
  | array hb ha _ ih =>
    intro d v ctx path o u h
    rcases d with _ | d
    · exact (Run.check_zero h).elim
    rw [Run.check.eq_def, Run.run_bind_of_eq (Store.run_check _ _), Store.at!_of_getElem? hb] at h
    dsimp only at h
    rw [Holds.arrayOf_iff ha]
    split at h
    · rename_i hv
      cases h
      exact ⟨rfl, _, rfl, .inr rfl, by simp [hv, Run.invalidType]⟩
    · rename_i xs hv
      simp only [Option.any_none, Bool.false_eq_true, ↓reduceIte] at h
      obtain ⟨rfl, code, rfl, hcode, hiff⟩ := Run.elements_plain ih xs (.inl rfl) h
      exact ⟨rfl, code, rfl, hcode, hiff.trans (by simp [hv])⟩

/-- The validator of a plain field is the plain node of its type, built by adding checks, and
never answers later. -/
theorem Build.validator_plain {field : Option String} {spec : Spec} {owner : Option Nat}
    {s₀ s₁ : Store} {val : Validator}
    (hbuild : (Build.validator field spec owner).run.run s₀ = (.ok val, s₁))
    (hspec : PlainSpec spec) (htag : PlainTag s₀ spec.type) :
    Pushes s₀ s₁ ∧ PlainNode s₁ val.check spec.type ∧ val.alwaysPending = false := by
  rw [Build.validator] at hbuild
  obtain ⟨c, t₁, hc, h⟩ := Run.ok_of_bind hbuild
  cases h
  have hcustom : spec.custom = none := hspec.2.2.2.1
  rw [hcustom] at hc
  obtain ⟨hp, hnode⟩ := Build.factory_plain Build.depth hspec htag hc
  refine ⟨hp, hnode, ?_⟩
  simp [hcustom]

namespace Run

/-- **Plain fields against membership.** The validator built for a field whose type is a plain
tag and whose spec adds nothing, run on any value other than an absent one or none, answers at
once and leaves the store alone: no code exactly when the value holds with every union refusing
none (`Holds s₁ false`). Membership of the same tag, from the same store, answers exactly
`Holds s₁ true`, in which a union takes none when a candidate's type does. The two agree on every
value with no none inside (`Holds.of_noNone`, `Holds.of_false`).

The plain tags are primitives, the wildcard, unions and arrays (`PlainTag`). Lazy tags and
schema tags are outside it: a lazy check resolves its thunk, which may run a rule, and a schema
check runs a nested context, so neither answers from the value alone. -/
theorem plain_validator_holds {field : Option String} {spec : Spec} {owner : Option Nat}
    {s₀ s₁ : Store} {val : Validator}
    (hbuild : (Build.validator field spec owner).run.run s₀ = (.ok val, s₁))
    (hspec : PlainSpec spec) (htag : PlainTag s₀ spec.type) :
    (∀ (d : Nat) (v : Value) (ctx : Option Nat) (o : Outcome) (t : Store),
      v ≠ .missing → v ≠ .none → (validator d val v ctx).run.run s₁ = (.ok o, t) →
      t = s₁ ∧ ∃ code, o = .now code ∧ (code = .none ↔ Holds s₁ false spec.type v)) ∧
    ∀ (d : Nat) (v : Value) (b : Bool) (t : Store),
      (Validation.isMember d spec.type v).run.run s₁ = (.ok b, t) →
      t = s₁ ∧ (b = true ↔ Holds s₁ true spec.type v) := by
  obtain ⟨hp, hnode, hpend⟩ := Build.validator_plain hbuild hspec htag
  refine ⟨fun d v ctx o t hmissing hnone h => ?_, fun d v b t h =>
    Validation.isMember_holds (htag.pushes hp) h⟩
  rw [validator.eq_def] at h
  rcases d with _ | d
  · cases h
  dsimp only at h
  split at h
  · exact absurd rfl hmissing
  · exact absurd rfl hnone
  · obtain ⟨a, t₁, ha, h⟩ := ok_of_bind h
    obtain ⟨rfl, code, rfl, -, hiff⟩ := hnode.answers ha
    rw [hpend] at h
    cases h
    exact ⟨rfl, code, rfl, hiff⟩

end Run

/-- A store with an array tag (`0`) of a union tag (`0`) of text or integers. -/
def textOrIntArrays : Store where
  unions := #[{
    candidates := [{ type := .primitive .string, min := .none, max := .none },
      { type := .primitive .integer, min := .none, max := .none }]
    name := "anyOf(string, integer)" }]
  arrays := #[{ element := .anyOf 0, name := "arrayOf(anyOf(string, integer))" }]

/-- The plain field of arrays of text or integers. -/
def textOrIntField : Spec where
  type := .arrayOf 0
  min := .none
  max := .none

/-- Its validator: the candidates are checked at `0` and `1`, the union at `2`, the array at
`3`. -/
def textOrIntValidator : Validator where
  field := some "f"
  check := 3
  required := false
  nullable := none
  offersNone := false
  alwaysPending := false

theorem plain_validator_holds_textOrInt :
    (Build.validator (some "f") textOrIntField none).run.run textOrIntArrays =
      (.ok textOrIntValidator, ((Build.validator (some "f") textOrIntField none).run.run
        textOrIntArrays).2) ∧
    PlainSpec textOrIntField ∧ PlainTag textOrIntArrays textOrIntField.type ∧
    (∀ (d : Nat) (v : Value) (ctx : Option Nat) (o : Outcome) (t : Store),
      v ≠ .missing → v ≠ .none →
      (Run.validator d textOrIntValidator v ctx).run.run
        ((Build.validator (some "f") textOrIntField none).run.run textOrIntArrays).2 = (.ok o, t) →
      t = ((Build.validator (some "f") textOrIntField none).run.run textOrIntArrays).2 ∧
        ∃ code, o = .now code ∧ (code = .none ↔ Holds ((Build.validator (some "f")
          textOrIntField none).run.run textOrIntArrays).2 false textOrIntField.type v)) ∧
    ∀ (d : Nat) (v : Value) (b : Bool) (t : Store),
      (Validation.isMember d textOrIntField.type v).run.run
        ((Build.validator (some "f") textOrIntField none).run.run textOrIntArrays).2 = (.ok b, t) →
      t = ((Build.validator (some "f") textOrIntField none).run.run textOrIntArrays).2 ∧
        (b = true ↔ Holds ((Build.validator (some "f") textOrIntField none).run.run
          textOrIntArrays).2 true textOrIntField.type v) := by
  have hbuild : (Build.validator (some "f") textOrIntField none).run.run textOrIntArrays =
      (.ok textOrIntValidator, ((Build.validator (some "f") textOrIntField none).run.run
        textOrIntArrays).2) := Prod.ext (by cbv) rfl
  have hspec : PlainSpec textOrIntField := ⟨rfl, rfl, rfl, rfl, rfl⟩
  have htag : PlainTag textOrIntArrays textOrIntField.type := by
    refine .arrayOf rfl (.anyOf rfl ?_ ?_)
    · intro c hc
      simp [textOrIntArrays] at hc
      rcases hc with rfl | rfl <;> exact ⟨rfl, rfl, rfl, rfl, rfl⟩
    · intro c hc
      simp [textOrIntArrays] at hc
      rcases hc with rfl | rfl <;> exact .primitive _
  exact ⟨hbuild, hspec, htag, Run.plain_validator_holds hbuild hspec htag⟩

/-- A store with an array tag (`0`) of a union tag (`0`) of the wildcard or text. -/
def anyOrTextArrays : Store where
  unions := #[{
    candidates := [{ type := .any, min := .none, max := .none },
      { type := .primitive .string, min := .none, max := .none }]
    name := "anyOf(any, string)" }]
  arrays := #[{ element := .anyOf 0, name := "arrayOf(anyOf(any, string))" }]

/-- A list holding none belongs to arrays of the wildcard or text, but the validator of a field
of that type refuses it: the union offers none to no candidate that is not nullable. -/
theorem validator_refuses_none_element :
    ((do
      let val ← Build.validator (some "f") { type := .arrayOf 0, min := .none, max := .none } none
      let member ← Validation.isMember Run.depth (.arrayOf 0) (.list [.none])
      let answer ← Run.validator Run.depth val (.list [.none]) none
      return (member, answer) : Run (Bool × Outcome)).run.run anyOrTextArrays).1 =
      .ok (true, .now Run.invalidType) := by
  cbv

end Schematic
