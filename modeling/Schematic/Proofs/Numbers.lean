import Mathlib
import Schematic.Proofs.Run
import Schematic.Check.Run

/-!
# Numbers and their bounds

A number field takes integers of any size and finite doubles, never a boolean; an integer field
takes those whose value is whole. Both compare a member with their bounds by exact value: an
integer is itself, a double is the dyadic rational its sign, significand and exponent spell, and
neither is rounded to the other's kind on the way. On the rational line with its two ends added,
every number but a NaN is a point, and a bounded number check follows the order of that line.

* `Binary.rat?`, `Value.rat?`: the rational a finite double, or a member of the number primitive,
  stands for; `Value.point?`: the point a number of any kind stands for;
* `Extended.compare?_eq_some`: the runner's order of numbers, by cross-multiplying with powers of
  two, is the order of their points, and `Value.compareWith_of_point?` lifts it to values;
* `Primitive.exactCode`: the code of a number or integer field, read off exact values;
* **`Run.number_field_gives`**: the check built for a number or integer field whose bounds are
  unset or numbers other than NaN answers on every value, at once, with that code.
-/

namespace Schematic

namespace Binary

/-- The rational a finite double stands for, `±m · 2^e`; none for a NaN or an infinity. -/
def rat? : Binary → Option ℚ
  | .finite negative m e => some ((if negative then -(m : ℚ) else m) * 2 ^ e)
  | _ => none

/-- The point of the extended rational line a double stands for; none for a NaN. -/
def point? : Binary → Option (WithBotTop ℚ)
  | .nan => none
  | .infinite negative => some (if negative then ⊥ else ⊤)
  | .finite negative m e =>
    some (((if negative then -(m : ℚ) else m) * 2 ^ e : ℚ) : WithBotTop ℚ)

/-- A double is finite exactly when it stands for a rational. -/
theorem isFinite_eq (b : Binary) : b.isFinite = b.rat?.isSome := by
  cases b <;> rfl

/-- A double is whole exactly when the rational it stands for is an integer: a nonnegative
exponent always gives one, and a negative exponent `-k` one when `2^k` divides the significand. -/
theorem isWhole_iff (b : Binary) : b.isWhole = true ↔ ∃ q, b.rat? = some q ∧ q.den = 1 := by
  cases b with
  | nan => simp [isWhole, rat?]
  | infinite => simp [isWhole, rat?]
  | finite negative m e =>
    simp only [isWhole, rat?, Option.some.injEq, exists_eq_left', Bool.or_eq_true,
      decide_eq_true_eq, beq_iff_eq]
    -- the value is the signed significand, an integer, scaled by a power of two
    obtain ⟨z, hz, hzm⟩ :
        ∃ z : ℤ, (if negative then -(m : ℚ) else m) = z ∧ z.natAbs = m :=
      ⟨if negative then -(m : ℤ) else m, by split <;> simp, by split <;> simp⟩
    rw [hz]
    by_cases he : 0 ≤ e
    · obtain ⟨k, rfl⟩ := Int.eq_ofNat_of_zero_le he
      simp only [he, true_or, true_iff, zpow_natCast]
      exact_mod_cast Rat.den_intCast (z * 2 ^ k)
    · obtain ⟨k, rfl⟩ : ∃ k : ℕ, e = -(k : ℤ) := ⟨(-e).toNat, by omega⟩
      have hk : (2 : ℤ) ^ k ≠ 0 := by positivity
      simp only [he, false_or, neg_neg, Int.toNat_natCast, zpow_neg, zpow_natCast, Nat.pow_eq]
      rw [← div_eq_mul_inv, show ((2 : ℚ) ^ k) = ((2 ^ k : ℤ) : ℚ) by push_cast; rfl,
        Rat.den_div_intCast_eq_one_iff z _ hk, ← Int.dvd_natAbs, hzm, ← Nat.dvd_iff_mod_eq_zero]
      exact_mod_cast Iff.rfl

end Binary

namespace Extended

/-- The point of the extended rational line a number stands for; none for a NaN. -/
def point? : Extended → Option (WithBotTop ℚ)
  | .nan => none
  | .negInf => some ⊥
  | .posInf => some ⊤
  | .dyadic a s => some ((a / 2 ^ s : ℚ) : WithBotTop ℚ)

/-- Cross-multiplying by powers of two compares two dyadic rationals exactly. -/
theorem compareDyadic_eq (a : Int) (s : Nat) (b : Int) (t : Nat) :
    compareDyadic a s b t = compare ((a : ℚ) / 2 ^ s) ((b : ℚ) / 2 ^ t) := by
  have hpos : (0 : ℚ) < 2 ^ s * 2 ^ t := by positivity
  have hdiv : StrictMono fun q : ℚ => q / (2 ^ s * 2 ^ t) :=
    fun _ _ h => div_lt_div_of_pos_right h hpos
  have ha : ((a * (Nat.pow 2 t : Int) : Int) : ℚ) / (2 ^ s * 2 ^ t) = (a : ℚ) / 2 ^ s := by
    rw [Nat.pow_eq]
    push_cast
    field_simp
  have hb : ((b * (Nat.pow 2 s : Int) : Int) : ℚ) / (2 ^ s * 2 ^ t) = (b : ℚ) / 2 ^ t := by
    rw [Nat.pow_eq]
    push_cast
    field_simp
  rw [compareDyadic, ← ha, ← hb, ← cmp_eq_compare, ← cmp_eq_compare, hdiv.cmp_map_eq,
    Int.cast_strictMono.cmp_map_eq]

/-- **The order of numbers is the order of the extended rational line.** Two numbers neither of
which is a NaN compare as the points they stand for. -/
theorem compare?_eq_some {a b : Extended} {x y : WithBotTop ℚ} (ha : a.point? = some x)
    (hb : b.point? = some y) : a.compare? b = some (compare x y) := by
  cases a <;> cases b <;> simp only [point?, Option.some.injEq, reduceCtorEq] at ha hb <;>
    subst ha hb <;> simp only [compare?, Option.some.injEq]
  case dyadic.dyadic a s b t =>
    rw [compareDyadic_eq, ← cmp_eq_compare, ← cmp_eq_compare, WithBotTop.coe_strictMono.cmp_map_eq]
  -- every other pair has an infinity, which lies below or above everything else
  all_goals
    symm
    simp [compare_lt_iff_lt, compare_gt_iff_gt, lt_top_iff_ne_top, bot_lt_iff_ne_bot]

/-- A double's exact value is the point its sign, significand and exponent spell. -/
theorem point?_ofBinary (b : Binary) : (ofBinary b).point? = b.point? := by
  cases b with
  | nan => rfl
  | infinite negative => cases negative <;> rfl
  | finite negative m e =>
    simp only [ofBinary, Binary.point?]
    -- the value is `±m · 2^e`, held as an integer over `2^0`, or over `2^(-e)`
    split
    case isTrue he =>
      obtain ⟨k, rfl⟩ := Int.eq_ofNat_of_zero_le he
      have hq : (((if negative then -(m : ℤ) else m) * (Nat.pow 2 (k : ℤ).toNat : ℤ) : ℤ) :
          ℚ) / 2 ^ 0 = (if negative then -(m : ℚ) else m) * 2 ^ (k : ℤ) := by
        rw [Int.toNat_natCast, Nat.pow_eq, zpow_natCast]
        split <;> push_cast <;> ring
      rw [point?, hq]
    case isFalse he =>
      obtain ⟨k, rfl⟩ : ∃ k : ℕ, e = -(k : ℤ) := ⟨(-e).toNat, by omega⟩
      have hq : ((if negative then -(m : ℤ) else m : ℤ) : ℚ) / 2 ^ (-(-(k : ℤ))).toNat =
          (if negative then -(m : ℚ) else m) * 2 ^ (-(k : ℤ)) := by
        rw [neg_neg, Int.toNat_natCast, zpow_neg, zpow_natCast, div_eq_mul_inv]
        split <;> push_cast <;> ring
      rw [point?, hq]

end Extended

namespace Value

/-- The exact value of a member of the number primitive: an integer of any size, or a finite
double. A boolean is no number here, nor is a NaN or an infinity. -/
def rat? : Value → Option ℚ
  | .int n => some n
  | .float bits => (Binary.ofBits bits).rat?
  | _ => Option.none

/-- The point of the extended rational line a value stands for when it is a number of any kind,
a boolean counting as `0` or `1` and an infinity as an end of the line; none for a NaN and for a
value that is no number. -/
def point? : Value → Option (WithBotTop ℚ)
  | .bool b => some ((if b then 1 else 0 : ℚ) : WithBotTop ℚ)
  | .int n => some ((n : ℚ) : WithBotTop ℚ)
  | .float bits => (Binary.ofBits bits).point?
  | _ => Option.none

/-- The number a value stands for has the value's point. -/
theorem point?_eq_bind (v : Value) : v.point? = v.number?.bind Extended.point? := by
  cases v with
  | bool b => cases b <;> simp [point?, number?, Extended.ofInt, Extended.point?]
  | int n => simp [point?, number?, Extended.ofInt, Extended.point?]
  | float bits => simp [point?, number?, Extended.point?_ofBinary]
  | _ => rfl

/-- A member of the number primitive stands for the point of its exact value. -/
theorem point?_of_rat? {v : Value} {q : ℚ} (h : v.rat? = some q) :
    v.point? = some (q : WithBotTop ℚ) := by
  cases v with
  | int n =>
    cases h
    rfl
  | float bits =>
    simp only [rat?] at h
    simp only [point?]
    cases hb : Binary.ofBits bits <;> rw [hb] at h <;> simp only [Binary.rat?, reduceCtorEq,
      Option.some.injEq] at h
    subst h
    rfl
  | _ => cases h

@[simp] theorem point?_none : Value.none.point? = Option.none := rfl

/-- `a < b` read off the order of two points. -/
@[simp] theorem holds_lt_compare {α : Type} [LinearOrder α] (x y : α) :
    holds .lt (compare x y) = decide (x < y) := by
  rw [holds, Bool.eq_iff_iff, beq_iff_eq, compare_lt_iff_lt, decide_eq_true_iff]

/-- `a > b` read off the order of two points. -/
@[simp] theorem holds_gt_compare {α : Type} [LinearOrder α] (x y : α) :
    holds .gt (compare x y) = decide (y < x) := by
  rw [holds, Bool.eq_iff_iff, beq_iff_eq, compare_gt_iff_gt, decide_eq_true_iff]

/-- **Numbers compare exactly.** Two values that stand for points of the extended rational line
compare as those points do, whatever their kinds: an integer of any size against a double, a
boolean against either. -/
theorem compareWith_of_point? {op : Comparison} {a b : Value} {x y : WithBotTop ℚ}
    (ha : a.point? = some x) (hb : b.point? = some y) :
    compareWith op a b = .ok (holds op (compare x y)) := by
  obtain ⟨X, hX, hx⟩ := Option.bind_eq_some_iff.1 ((point?_eq_bind a).symm.trans ha)
  obtain ⟨Y, hY, hy⟩ := Option.bind_eq_some_iff.1 ((point?_eq_bind b).symm.trans hb)
  have hc := Extended.compare?_eq_some hx hy
  cases a <;> cases b <;> simp only [number?, reduceCtorEq, Option.some.injEq] at hX hY <;>
    subst hX hY <;> rw [compareWith] <;> simp [number?, hc]

end Value

/-- A bound of a number field: unset, or a number that is not a NaN. -/
def NumericBound (b : Value) : Prop := b = .none ∨ b.point?.isSome

/-- A bound of a number field is unset, or is compared exactly with every member. -/
theorem NumericBound.compare {b v : Value} {q : ℚ} (hb : NumericBound b) (hq : v.rat? = some q)
    (op : Comparison) : b = .none ∨ b ≠ .none ∧ ∃ B, b.point? = some B ∧
      Value.compareWith op v b = .ok (Value.holds op (compare (q : WithBotTop ℚ) B)) := by
  rcases hb with rfl | hb
  · exact .inl rfl
  · obtain ⟨B, hB⟩ := Option.isSome_iff_exists.1 hb
    refine .inr ⟨?_, B, hB, Value.compareWith_of_point? (Value.point?_of_rat? hq) hB⟩
    rintro rfl
    simp at hB

namespace Primitive

/-- The code of a number or integer field on a value, read off exact values: `invalidType` for
anything that is not an integer or a finite double (a boolean, a NaN and the infinities
included), and, for an integer field, for a double with a fraction; otherwise the low code when
the value lies below `min`, the high code when it lies above `max`, and none. A bound that is
unset bounds nothing. -/
def exactCode (p : Primitive) (lo hi v : Value) : Value :=
  match v.rat? with
  | none => Run.invalidType
  | some q =>
    if p = .integer ∧ q.den ≠ 1 then Run.invalidType
    else match p.boundCodes with
      | none => .none
      | some (low, high) =>
        if lo.point?.any (fun b => decide ((q : WithBotTop ℚ) < b)) then
          .str low
        else if hi.point?.any (fun b => decide (b < (q : WithBotTop ℚ))) then
          .str high
        else .none

/-- The members of the number primitive are the values with an exact value; those of the
integer primitive, the values whose exact value is whole. -/
theorem test_numeric {p : Primitive} (hp : p = .number ∨ p = .integer) (v : Value) :
    p.test v = true ↔ ∃ q, v.rat? = some q ∧ (p = .integer → q.den = 1) := by
  rcases hp with rfl | rfl <;> cases v <;> simp [test, Value.rat?]
  -- what is left are the doubles: finite, and for an integer field also whole
  · rw [Binary.isFinite_eq, Option.isSome_iff_exists]
  · rw [Binary.isWhole_iff, Binary.isFinite_eq, Option.isSome_iff_exists]
    exact ⟨And.right, fun h => ⟨h.imp fun _ => And.left, h⟩⟩

/-- **Bounded numbers.** A number or integer field whose bounds are unset or numbers other than
NaN answers on every value, with the code its exact value gives. -/
theorem boundedCode_numeric {p : Primitive} (hp : p = .number ∨ p = .integer) {lo hi : Value}
    (hlo : NumericBound lo) (hhi : NumericBound hi) (v : Value) :
    p.boundedCode lo hi v = .ok (p.exactCode lo hi v) := by
  obtain ⟨low, high, hcodes⟩ : ∃ low high, p.boundCodes = some (low, high) := by
    rcases hp with rfl | rfl <;> simp [boundCodes]
  by_cases hv : p.test v = true
  case pos =>
    -- a member: its exact value is compared with each bound that is set
    obtain ⟨q, hq, hwhole⟩ := (test_numeric hp v).1 hv
    have hmeasure : p.measure v = v := by rcases hp with rfl | rfl <;> rfl
    have hdate : ¬(p = .date ∨ p = .datetime) := by rcases hp with rfl | rfl <;> simp
    have hint : ¬(p = .integer ∧ q.den ≠ 1) := fun h => h.2 (hwhole h.1)
    simp only [boundedCode, hv, hcodes, hmeasure, hdate, exactCode, hq, if_neg hint,
      Bool.not_true, Bool.false_eq_true, if_false]
    -- each bound is skipped when unset, and otherwise compared exactly
    rcases hlo.compare hq .lt with rfl | ⟨hne, B, hB, hcmp⟩ <;>
      rcases hhi.compare hq .gt with rfl | ⟨hne', C, hC, hcmp'⟩ <;>
      simp only [*, Value.point?_none, Option.any_none, Option.any_some, Bool.not_false,
        Bool.not_true, if_true, Bool.false_eq_true, if_false, Value.holds_lt_compare,
        Value.holds_gt_compare, bind, Except.bind, pure, Except.pure] <;>
      split_ifs <;> rfl
  case neg =>
    -- not a member: no exact value, or a fraction in an integer field
    have hcode : p.exactCode lo hi v = Run.invalidType := by
      cases hq : v.rat? with
      | none => simp [exactCode, hq]
      | some q =>
        have hfrac : p = .integer ∧ q.den ≠ 1 := by
          by_contra h
          exact hv ((test_numeric hp v).2 ⟨q, hq, fun hi => not_not.1 (not_and.1 h hi)⟩)
        simp [exactCode, hq, hfrac]
    simp [boundedCode, hv, hcode, Run.invalidType, pure, Except.pure]

/-- With neither bound set, a primitive's bounded code is its membership. -/
theorem boundedCode_unbounded (p : Primitive) (v : Value) :
    p.boundedCode .none .none v = .ok (if p.test v then .none else Run.invalidType) := by
  by_cases hv : p.test v = true <;> cases hc : p.boundCodes <;>
    simp [boundedCode, hv, hc, Run.invalidType, pure, Except.pure]

end Primitive

/-- The check built for a primitive is membership alone when the primitive has no measure or the
field sets no bound, and membership with the field's bounds otherwise. -/
theorem Build.tagCheck_primitive {fuel : Nat} {p : Primitive} {field : Option String}
    {spec : Spec} {owner : Option Nat} {s t : Store} {node : Nat}
    (h : (Build.tagCheck (fuel + 1) (.primitive p) field spec owner).run.run s = (.ok node, t)) :
    (t.checks[node]? = some (.member p) ∧
        (p.boundCodes = none ∨ spec.min = .none ∧ spec.max = .none)) ∨
      t.checks[node]? = some (.bounded p spec.min spec.max) := by
  rw [Build.tagCheck] at h
  split_ifs at h with hc
  · rw [Store.run_addCheck] at h
    cases h
    refine .inl ⟨Array.getElem?_push_size, ?_⟩
    -- the primitive has no measure, or neither bound is set
    simp only [Bool.or_eq_true, Bool.and_eq_true, Option.isNone_iff_eq_none] at hc
    rcases hc with hc | ⟨hmin, hmax⟩
    · exact .inl hc
    refine .inr ⟨?_, ?_⟩
    · split at hmin
      · assumption
      · cases hmin
    · split at hmax
      · assumption
      · cases hmax
  · rw [Store.run_addCheck] at h
    cases h
    exact .inr Array.getElem?_push_size

namespace Run

/-- **Number fields.** The check built for a number or integer field whose bounds are each unset
or a number other than NaN (an integer of any size, a boolean, a finite double or an infinity)
answers on every value, at once and leaving the store as it was, with the code `exactCode` reads
off exact values: `invalidType` for a boolean, for anything that is not a number, for a NaN and an
infinity, and in an integer field for a double with a fraction; otherwise the low code below
`min`, else the high code above `max`, else none. Nothing is rounded on the way: an integer of
any size and a double compare as the rationals they stand for. -/
theorem number_field_gives {fuel : Nat} {p : Primitive} {field : Option String} {spec : Spec}
    {owner : Option Nat} {s₀ s₁ : Store} {node : Nat} (hp : p = .number ∨ p = .integer)
    (hlo : NumericBound spec.min) (hhi : NumericBound spec.max)
    (hbuild : (Build.tagCheck (fuel + 1) (.primitive p) field spec owner).run.run s₀ =
      (.ok node, s₁))
    (s : Store) (d : Nat) (v : Value) (ctx : Option Nat) (path : String)
    (hs : s.checks[node]? = s₁.checks[node]?) :
    (check (d + 1) node v ctx path).run.run s =
      (.ok (.now (p.exactCode spec.min spec.max v)), s) := by
  rcases Build.tagCheck_primitive hbuild with ⟨hnode, hbounds⟩ | hnode <;>
    rw [check.eq_def, run_bind_of_eq (Store.run_check _ _), Store.at!_of_getElem? (hs.trans hnode)]
  case inl =>
    -- membership alone: the primitive has a measure, so neither bound is set
    obtain ⟨hmin, hmax⟩ :=
      hbounds.resolve_left (by rcases hp with rfl | rfl <;> simp [Primitive.boundCodes])
    have hcode :
        (if p.test v then Value.none else invalidType) = p.exactCode spec.min spec.max v := by
      have h := (Primitive.boundedCode_unbounded p v).symm.trans
        (Primitive.boundedCode_numeric hp (.inl rfl) (.inl rfl) v)
      rw [hmin, hmax]
      exact Except.ok.inj h
    simp only [hcode]
    rfl
  case inr =>
    simp only [Primitive.boundedCode_numeric hp hlo hhi v]
    rfl

end Run

/-- An integer field between `0` and the double `100.5`. -/
def scoreSpec : Spec :=
  { type := .primitive .integer, min := .int 0, max := .float 0x4059200000000000 }

/-- The integer field `score` is built into the empty store as check `0`, and answers by exact
value from any store that keeps that check. -/
theorem number_field_gives_score :
    ((Primitive.integer = .number ∨ Primitive.integer = .integer) ∧
      NumericBound scoreSpec.min ∧ NumericBound scoreSpec.max) ∧
    (Build.tagCheck 1 (.primitive .integer) (some "score") scoreSpec none).run.run {} =
      (.ok 0, ((Build.tagCheck 1 (.primitive .integer) (some "score") scoreSpec none).run.run
        {}).2) ∧
    ∀ (s : Store) (d : Nat) (v : Value) (ctx : Option Nat) (path : String),
      s.checks[0]? = ((Build.tagCheck 1 (.primitive .integer) (some "score") scoreSpec none).run.run
        {}).2.checks[0]? →
      (Run.check (d + 1) 0 v ctx path).run.run s =
        (.ok (.now (Primitive.integer.exactCode scoreSpec.min scoreSpec.max v)), s) := by
  have hlo : NumericBound scoreSpec.min := .inr rfl
  have hhi : NumericBound scoreSpec.max := .inr rfl
  have hbuild : (Build.tagCheck 1 (.primitive .integer) (some "score") scoreSpec none).run.run {} =
      (.ok 0, ((Build.tagCheck 1 (.primitive .integer) (some "score") scoreSpec none).run.run
        {}).2) := Prod.ext (by cbv) rfl
  exact ⟨⟨.inr rfl, hlo, hhi⟩, hbuild, Run.number_field_gives (.inr rfl) hlo hhi hbuild⟩

end Schematic
