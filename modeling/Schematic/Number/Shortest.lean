import Schematic.Number.Binary

/-!
# The shortest decimal that reads back

Every positive finite double `x = m · 2^e` is the nearest double to each real in its rounding
interval: the reals between the midpoints to its two neighbours, ends included exactly when `m`
is even (a tie is read to the even significand). The decimal written for `x` is the one with
the fewest significant digits inside that interval, and of two such, the one nearer to `x`.

For `k = 1, 2, …, 17` digits the candidates are the two neighbours of `x` on the grid of
`k`-digit decimals; the first `k` with a candidate inside the interval wins. Seventeen digits
always suffice. All arithmetic is on natural numbers scaled so that every quantity is whole.
-/

namespace Schematic

namespace Shortest

/-- The number of decimal digits of `n` less one, i.e. `⌊log₁₀ n⌋` for `n ≥ 1`. -/
def log10 (n : Nat) : Nat :=
  if n < 10 then 0 else log10 (n / 10) + 1
termination_by n
decreasing_by omega

/-- The decimal digits of `n`, most significant first (`[0]` for zero). -/
def digitsOf (n : Nat) : List Nat :=
  if n < 10 then [n] else digitsOf (n / 10) ++ [n % 10]
termination_by n
decreasing_by omega

/-- A decimal `digits · 10^exponent` with no trailing zero in `digits` (unless it is zero). -/
structure Decimal where
  digits : Nat
  exponent : Int
  deriving Repr, DecidableEq

/-- Moves trailing zeros of the digits into the exponent. -/
def Decimal.trim (d : Decimal) : Decimal :=
  if d.digits ≠ 0 ∧ d.digits % 10 = 0 then
    Decimal.trim ⟨d.digits / 10, d.exponent + 1⟩
  else d
termination_by d.digits
decreasing_by omega

/-- The scaled rounding interval of `m · 2^e`: the value `v`, the distances `down` and `up` to
the interval's ends, the common denominator `scale`, and whether the ends belong to it. -/
structure Interval where
  value : Nat
  down : Nat
  up : Nat
  scale : Nat
  closed : Bool

/-- The rounding interval of the positive double `m · 2^e`, every quantity multiplied by
`4 · 2^max(0, -e)`. At a power of two the gap below is half the gap above. -/
def interval (m : Nat) (e : Int) : Interval :=
  let lift := Nat.pow 2 e.toNat
  let scale := 4 * Nat.pow 2 (-e).toNat
  let up := 2 * lift
  let down := if m = Nat.pow 2 52 ∧ e > -1074 then lift else up
  ⟨4 * m * lift, down, up, scale, m % 2 == 0⟩

/-- `⌊log₁₀ (value / scale)⌋` for a positive value. -/
def decimalExponent (value scale : Nat) : Int :=
  if scale ≤ value then (log10 (value / scale) : Int)
  else
    let c := (scale + value - 1) / value
    let below : Int := log10 (c - 1) + 1
    Int.neg below

/-- Whether a scaled candidate lies in the scaled interval `[v - down, v + up]`. -/
def inside (closed : Bool) (v down up c : Nat) : Bool :=
  if closed then decide (v ≤ c + down) && decide (c ≤ v + up)
  else decide (v < c + down) && decide (c < v + up)

/-- The candidates of `p`-th power grid: returns the chosen multiple of `10^p` if one of the two
neighbours of the value on that grid lies in the interval. -/
def onGrid (iv : Interval) (p : Int) : Option Nat :=
  let (v, down, up, unit) :=
    if 0 ≤ p then (iv.value, iv.down, iv.up, iv.scale * Nat.pow 10 p.toNat)
    else
      let f := Nat.pow 10 (-p).toNat
      (iv.value * f, iv.down * f, iv.up * f, iv.scale)
  let q := v / unit
  let lo := q * unit
  let hi := lo + unit
  let loIn := inside iv.closed v down up lo
  let hiIn := inside iv.closed v down up hi
  if loIn && hiIn then
    if v - lo < hi - v then some q
    else if hi - v < v - lo then some (q + 1)
    else if q % 2 == 0 then some q else some (q + 1)
  else if loIn then some q
  else if hiIn then some (q + 1)
  else none

/-- Tries `k, k + 1, …` digits for at most `fuel` more steps. -/
def search (iv : Interval) (top : Int) : Nat → Nat → Decimal
  | _, 0 => Decimal.trim ⟨iv.value / iv.scale, 0⟩
  | k, fuel + 1 =>
    let p := top - k + 1
    match onGrid iv p with
    | some q => Decimal.trim ⟨q, p⟩
    | none => search iv top (k + 1) fuel

/-- The shortest decimal, nearest of the shortest, that reads back as the positive double
`m · 2^e` (with `m > 0`). -/
def ofBinary (m : Nat) (e : Int) : Decimal :=
  let iv := interval m e
  search iv (decimalExponent iv.value iv.scale) 1 17

end Shortest

end Schematic
