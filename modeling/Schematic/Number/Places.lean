import Schematic.Number.Shortest

/-!
# Doubles to a fixed number of places

`Places.fixed` writes a double with a given number of digits after the point (`12.000000`);
`Places.scientific` writes it with one digit before the point, a given number after it and a
decimal exponent (`1.2346e-7`). Both round the exact value of the double to the nearest decimal
of that many places, a tie going to the even last digit, and both keep the sign of a negative
value even when it rounds to zero (`-0.000000`).
-/

namespace Schematic

namespace Places

/-- `num / den` rounded to the nearest whole number, a tie going to the even one: the
quotient, plus one when twice the remainder exceeds the divisor, or equals it and the quotient
is odd. -/
def roundHalfEven (num den : Nat) : Nat :=
  let q := num / den
  let r := num % den
  if 2 * r > den || (2 * r == den && q % 2 == 1) then q + 1 else q

/-- The exact value of `m · 2^e` as a numerator and a denominator. -/
def fraction (m : Nat) (e : Int) : Nat × Nat :=
  if 0 ≤ e then (m * Nat.pow 2 e.toNat, 1) else (m, Nat.pow 2 (-e).toNat)

/-- `n` written with at least `width` digits, padded with zeros. -/
def padded (width n : Nat) : String :=
  let s := toString n
  String.ofList (List.replicate (width - s.length) '0') ++ s

/-- The sign of a negative value. -/
def sign (negative : Bool) : String := if negative then "-" else ""

/-- `(-1)^negative · m · 2^e` with `places` digits after the point. -/
def fixed (negative : Bool) (m : Nat) (e : Int) (places : Nat) : String :=
  let (num, den) := fraction m e
  let unit := Nat.pow 10 places
  let n := roundHalfEven (num * unit) den
  let whole := toString (n / unit)
  if places = 0 then sign negative ++ whole
  else sign negative ++ whole ++ "." ++ padded places (n % unit)

/-- `(-1)^negative · m · 2^e` with one digit before the point, `places` after it, and the
exponent of ten. The exponent is that of the value's first digit, one more when rounding
carries into a new digit. -/
def scientific (negative : Bool) (m : Nat) (e : Int) (places : Nat) : String :=
  let mantissa (ds : String) : String :=
    if places = 0 then (ds.take 1).toString
    else (ds.take 1).toString ++ "." ++ (ds.drop 1).toString
  if m = 0 then sign negative ++ mantissa (padded (places + 1) 0) ++ "e0"
  else
    let (num, den) := fraction m e
    let k := Shortest.decimalExponent num den
    let shift : Int := k - places
    let (sn, sd) :=
      if 0 ≤ shift then (num, den * Nat.pow 10 shift.toNat)
      else (num * Nat.pow 10 (-shift).toNat, den)
    let n := roundHalfEven sn sd
    let (n, k) := if n = Nat.pow 10 (places + 1) then (Nat.pow 10 places, k + 1) else (n, k)
    sign negative ++ mantissa (toString n) ++ "e" ++ toString k

end Places

end Schematic
