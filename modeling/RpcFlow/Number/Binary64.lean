/-!
# Double-precision numbers, exactly

A `Binary64` is a sign, a significand and a binary exponent; it stands for
`± significand · 2 ^ exponent`.  All arithmetic is done on fractions of natural numbers and rounded
once, to the nearest double with ties to the even significand, so nothing here is opaque to a proof.

* `Binary64.ofRatio` rounds a fraction; it answers `none` when the result would be infinite.
* `Binary64.times` and `Binary64.dividedBy` are the rounded product and quotient.
* `Binary64.ofDecimal` is the double nearest to a decimal, and `Binary64.ofDecimalStepwise` the one
  reached by rounding the digits first and the power of ten second, which is what a JSON reader
  without big numbers computes and may differ in the last place.
* `Binary64.agrees` compares values: the two zeros agree although they are written differently.
-/

set_option autoImplicit false

namespace RpcFlow

/-- A finite double: `± significand · 2 ^ exponent`.  Normal numbers have a significand of 53 bits;
below them the exponent is `-1074`. -/
structure Binary64 where
  negative : Bool
  significand : Nat
  exponent : Int
  deriving DecidableEq, Repr

namespace Binary64

/-- The least binary exponent of a double. -/
def minExponent : Int := -1074

/-- The greatest binary exponent of a double. -/
def maxExponent : Int := 971

/-- Zero with the given sign. -/
def zero (negative : Bool) : Binary64 := ⟨negative, 0, minExponent⟩

def isZero (x : Binary64) : Bool := x.significand == 0

/-- `n / d` rounded to the nearest integer, a tie to the even one. -/
def roundDiv (n d : Nat) : Nat :=
  let q := n / d
  let r := n % d
  if 2 * r > d ∨ (2 * r = d ∧ q % 2 = 1) then q + 1 else q

/-- The integer part of the binary logarithm of the positive fraction `n / d`. -/
def log2Ratio (n d : Nat) : Int :=
  let guess : Int := (n.log2 : Int) - (d.log2 : Int)
  let reached : Bool :=
    if 0 ≤ guess then d * Nat.pow 2 guess.toNat ≤ n else d ≤ n * Nat.pow 2 (-guess).toNat
  if reached then guess else guess - 1

/-- The double nearest to `± n / d`; `none` beyond the greatest finite one. -/
def ofRatio (negative : Bool) (n d : Nat) : Option Binary64 :=
  if n = 0 then some (zero negative)
  else
    let e := max (log2Ratio n d - 52) minExponent
    let m :=
      if 0 ≤ e then roundDiv n (d * Nat.pow 2 e.toNat)
      else roundDiv (n * Nat.pow 2 (-e).toNat) d
    let (m, e) := if m = Nat.pow 2 53 then (Nat.pow 2 52, e + 1) else (m, e)
    if e > maxExponent then none else some ⟨negative, m, e⟩

/-- The magnitude of a double as a fraction. -/
def ratio (x : Binary64) : Nat × Nat :=
  if 0 ≤ x.exponent then (x.significand * Nat.pow 2 x.exponent.toNat, 1)
  else (x.significand, Nat.pow 2 (-x.exponent).toNat)

/-- The rounded product. -/
def times (x y : Binary64) : Option Binary64 :=
  let (a, b) := x.ratio
  let (c, d) := y.ratio
  ofRatio (x.negative != y.negative) (a * c) (b * d)

/-- The rounded quotient by a number that is not zero. -/
def dividedBy (x y : Binary64) : Option Binary64 :=
  let (a, b) := x.ratio
  let (c, d) := y.ratio
  ofRatio (x.negative != y.negative) (a * d) (b * c)

/-- The double nearest to an integer; integers of 64 bits never overflow. -/
def ofInt (n : Int) : Binary64 :=
  (ofRatio (n < 0) n.natAbs 1).getD (zero false)

/-- The double nearest to `10 ^ k`. -/
def pow10 (k : Nat) : Option Binary64 := ofRatio false (Nat.pow 10 k) 1

/-- The double nearest to `± digits · 10 ^ exponent`; `none` beyond the greatest finite one. -/
def ofDecimal (negative : Bool) (digits : Nat) (exponent : Int) : Option Binary64 :=
  if digits = 0 then some (zero negative)
  else
    let width : Int := ((digits.log2 / 3 : Nat) : Int) + 1
    if exponent > 400 then none
    else if exponent + width < -400 then some (zero negative)
    else if 0 ≤ exponent then ofRatio negative (digits * Nat.pow 10 exponent.toNat) 1
    else ofRatio negative digits (Nat.pow 10 (-exponent).toNat)

/-- Divides by `10 ^ 308` up to `steps` times, rounding after each division; zero stays zero. -/
def shrink : Nat → Binary64 → Option Binary64
  | 0, x => some x
  | steps + 1, x =>
    if x.isZero then some x else ((pow10 308).bind x.dividedBy).bind (shrink steps)

/-- Multiplies by `10 ^ exponent`, one rounding per step: powers up to `10 ^ 308` are applied in one
step, and a smaller power by dividing by `10 ^ 308` first. -/
def scale10 (x : Binary64) (exponent : Int) : Option Binary64 :=
  if exponent > 308 then if x.isZero then some x else none
  else if 0 ≤ exponent then (pow10 exponent.toNat).bind x.times
  else
    let steps := ((-exponent).toNat - 1) / 308
    (shrink steps x).bind fun y => (pow10 ((-exponent).toNat - 308 * steps)).bind y.dividedBy

/-- `± digits · 10 ^ exponent` with the digits rounded first and the power of ten applied to the
rounded value. -/
def ofDecimalStepwise (negative : Bool) (digits : Nat) (exponent : Int) : Option Binary64 :=
  ((ofRatio false digits 1).bind fun x => scale10 x exponent).map fun x =>
    { x with negative := negative }

/-- Equality of values: zeros agree whatever their sign. -/
def agrees (x y : Binary64) : Bool :=
  x = y || (x.isZero && y.isZero)

theorem agrees_refl (x : Binary64) : x.agrees x = true := by simp [agrees]

/-! ## Fixed points of the rounding -/

example : ofRatio false 1 1 = some ⟨false, 2 ^ 52, -52⟩ := by decide +kernel
example : ofRatio false 1 10 = some ⟨false, 7205759403792794, -56⟩ := by decide +kernel
example : ofDecimal false 5 (-324) = some ⟨false, 1, -1074⟩ := by decide +kernel
example : ofDecimal false 2 308 = none := by decide +kernel

end Binary64
end RpcFlow
