/-!
# Binary64 values read exactly

A double is a bit pattern; this module reads it as an exact number. A finite double is
`(-1)^s · m · 2^e` with a 53-bit significand `m`, so it can be compared with an integer of any
size, or with another double, by integer arithmetic alone, with no rounding anywhere.

The order used is the one of the extended reals, with a value that is not a number left
unordered against everything: `Extended.compare?` answers `none` exactly when one side is a NaN.
-/

namespace Schematic

/-- The three shapes of a binary64 value. -/
inductive Binary where
  | nan
  | infinite (negative : Bool)
  | finite (negative : Bool) (significand : Nat) (exponent : Int)
  deriving Repr, DecidableEq

namespace Binary

/-- Reads the sign bit, the eleven exponent bits and the fifty-two fraction bits. A zero exponent
field is a subnormal (or zero) with exponent `-1074`; the all-ones field is an infinity or a NaN. -/
def ofBits (bits : UInt64) : Binary :=
  let n : Nat := bits.toNat
  let negative : Bool := n / Nat.pow 2 63 % 2 == 1
  let field : Nat := n / Nat.pow 2 52 % Nat.pow 2 11
  let fraction : Nat := n % Nat.pow 2 52
  if field == Nat.pow 2 11 - 1 then
    if fraction == 0 then .infinite negative else .nan
  else if field == 0 then
    .finite negative fraction (-1074)
  else
    .finite negative (fraction + Nat.pow 2 52) ((field : Int) - 1075)

/-- The binary shape of a double. -/
def ofFloat (x : Float) : Binary := ofBits x.toBits

end Binary

/-- An exact number of the extended line: `num / 2^shift`, an infinity, or not a number. -/
inductive Extended where
  | nan
  | negInf
  | posInf
  | dyadic (num : Int) (shift : Nat)
  deriving Repr, DecidableEq

namespace Extended

/-- An integer as an exact number. -/
def ofInt (n : Int) : Extended := .dyadic n 0

/-- The exact value of a binary64 shape. -/
def ofBinary : Binary → Extended
  | .nan => .nan
  | .infinite true => .negInf
  | .infinite false => .posInf
  | .finite negative m e =>
    let signed : Int := if negative then -(m : Int) else m
    if 0 ≤ e then .dyadic (signed * Nat.pow 2 e.toNat) 0 else .dyadic signed (-e).toNat

/-- The exact value of a double. -/
def ofFloat (x : Float) : Extended := ofBinary (Binary.ofFloat x)

/-- Compares two dyadic rationals by cross-multiplying with powers of two. -/
def compareDyadic (a : Int) (s : Nat) (b : Int) (t : Nat) : Ordering :=
  compare (a * Nat.pow 2 t) (b * Nat.pow 2 s)

/-- The order of the extended line; `none` when either side is not a number. -/
def compare? : Extended → Extended → Option Ordering
  | .nan, _ => none
  | _, .nan => none
  | .negInf, .negInf => some .eq
  | .negInf, _ => some .lt
  | .posInf, .posInf => some .eq
  | .posInf, _ => some .gt
  | .dyadic _ _, .negInf => some .gt
  | .dyadic _ _, .posInf => some .lt
  | .dyadic a s, .dyadic b t => some (compareDyadic a s b t)

end Extended

namespace Binary

/-- A finite double whose value is a whole number. -/
def isWhole : Binary → Bool
  | .finite _ m e => 0 ≤ e || m % Nat.pow 2 (-e).toNat == 0
  | _ => false

/-- Neither a NaN nor an infinity. -/
def isFinite : Binary → Bool
  | .finite _ _ _ => true
  | _ => false

end Binary

end Schematic
