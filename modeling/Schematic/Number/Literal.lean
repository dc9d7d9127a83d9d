import Schematic.Number.Binary

/-!
# Decimal numerals

A numeral written without a point or an exponent is an integer of any size; one written with
either is the double nearest to the exact number it denotes, ties going to the even
significand, as the usual numeral readers round.

The nearest double is computed exactly (`Binary.nearest`): the quotient `num / den` is scaled
by the power of two that puts it in `[2^52, 2^53)` (or by `2^1074` when it is below the normal
range), and the integer part of the scaled quotient is rounded by comparing twice the remainder
with the divisor. No intermediate value is rounded, so the answer is correctly rounded for every
numeral.
-/

namespace Schematic

namespace Binary

/-- The bits of the finite double `(-1)^negative · m · 2^s`, for `m < 2^53` with `m ≥ 2^52`
unless `s = -1074`; an exponent past the largest finite double gives an infinity. -/
def pack (negative : Bool) (m : Nat) (s : Int) : UInt64 :=
  let sign : Nat := if negative then Nat.pow 2 63 else 0
  if m < Nat.pow 2 52 then UInt64.ofNat (sign + m)
  else
    let biased : Int := s + 1075
    if biased ≥ 2047 then UInt64.ofNat (sign + 2047 * Nat.pow 2 52)
    else UInt64.ofNat (sign + biased.toNat * Nat.pow 2 52 + (m - Nat.pow 2 52))

/-- `num / (den · 2^s)` as a numerator and a divisor of naturals, `s` of either sign. -/
def scale (num den : Nat) (s : Int) : Nat × Nat :=
  if s < 0 then (num * Nat.pow 2 (-s).toNat, den) else (num, den * Nat.pow 2 s.toNat)

/-- The quotient `num / (den · 2^s)` rounded to the nearest integer, ties to even. -/
def roundScaled (num den : Nat) (s : Int) : Nat :=
  let (n, d) := scale num den s
  let q := n / d
  let r := n % d
  if 2 * r > d || (2 * r == d && q % 2 == 1) then q + 1 else q

/-- The bits of the double nearest to `±num / den`, for `den > 0`. With `a` and `b` the
binary logarithms of `num` and `den`, the quotient lies strictly between `2^(a-b-1)` and
`2^(a-b+1)`, so scaling it by `2^(a-b-52)` leaves an integer part in `[2^51, 2^53)`; one more
doubling when it is below `2^52` puts it in the range of significands. -/
def nearest (negative : Bool) (num den : Nat) : UInt64 :=
  if num = 0 then pack negative 0 (-1074)
  else
    let guess : Int := (num.log2 : Int) - (den.log2 : Int) - 52
    let (n, d) := scale num den guess
    let s := if n / d < Nat.pow 2 52 then guess - 1 else guess
    let s := max s (-1074)
    let m := roundScaled num den s
    if m = Nat.pow 2 53 then pack negative (Nat.pow 2 52) (s + 1) else pack negative m s

end Binary

/-- The parts of a numeral: its sign, its digits with the point removed, the power of ten they
are scaled by, and whether it was written with a point or an exponent. -/
structure Numeral where
  negative : Bool
  digits : Nat
  exponent : Int
  fractional : Bool

namespace Numeral

/-- Splits off the leading decimal digits of a list of characters, with their value and
count. -/
def digitRun : List Char → Nat × Nat × List Char
  | c :: cs =>
    if c.isDigit then
      let (v, k, rest) := digitRun cs
      ((c.toNat - 48) * Nat.pow 10 k + v, k + 1, rest)
    else (0, 0, c :: cs)
  | [] => (0, 0, [])

/-- Reads a numeral: an optional minus, digits, an optional point with digits, an optional
exponent with an optional sign. -/
def read? (s : String) : Option Numeral :=
  let (negative, cs) := match s.toList with
    | '-' :: cs => (true, cs)
    | cs => (false, cs)
  let (whole, wholeCount, cs) := digitRun cs
  if wholeCount = 0 then none
  else
    let (frac, fracCount, pointed, cs) := match cs with
      | '.' :: rest =>
        let (f, k, rest) := digitRun rest
        (f, k, true, rest)
      | _ => (0, 0, false, cs)
    if pointed ∧ fracCount = 0 then none
    else
      let (power, scientific, ok, cs) := match cs with
        | c :: rest =>
          if c = 'e' ∨ c = 'E' then
            let (down, rest) := match rest with
              | '-' :: r => (true, r)
              | '+' :: r => (false, r)
              | r => (false, r)
            let (e, k, rest) := digitRun rest
            ((if down then -(e : Int) else e), true, decide (k > 0), rest)
          else (0, false, true, c :: rest)
        | [] => (0, false, true, [])
      if !ok || !cs.isEmpty then none
      else
        some ⟨negative, whole * Nat.pow 10 fracCount + frac, power - fracCount,
          pointed || scientific⟩

/-- The number of decimal digits of `n`, one for zero. -/
def width (n : Nat) : Nat := (toString n).length

/-- The bits of the double nearest to the numeral. Far outside the range of doubles the
answer is an infinity or a zero at once, without building the huge power of ten. -/
def nearestBits (x : Numeral) : UInt64 :=
  let w : Int := width x.digits
  if x.digits = 0 then Binary.pack x.negative 0 (-1074)
  else if w + x.exponent > 310 then Binary.pack x.negative (Nat.pow 2 52) 1024
  else if w + x.exponent < -330 then Binary.pack x.negative 0 (-1074)
  else if x.exponent ≥ 0 then Binary.nearest x.negative (x.digits * Nat.pow 10 x.exponent.toNat) 1
  else Binary.nearest x.negative x.digits (Nat.pow 10 (-x.exponent).toNat)

/-- The integer a numeral without point or exponent denotes. -/
def integer (x : Numeral) : Int :=
  let n : Int := x.digits * Nat.pow 10 x.exponent.toNat
  if x.negative then -n else n

end Numeral

end Schematic
