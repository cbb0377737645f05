import RpcFlow.Number.Binary64

/-!
# The shortest decimal that reads back

`Binary64.shortest` finds, for a double that is not zero, the decimal with the fewest digits among
those that round to it, and of two such decimals the nearer one.  A decimal rounds to the double
exactly if it lies between the midpoints to its neighbours; the midpoints belong to the double when
its significand is even.  On each decimal grid only the two points next to the value can be the
nearest, so the search looks at those two on grids of one digit, two digits, and so on.

`Binary64.render` writes the result: positional notation, always with a fraction, for leading digits
between `10 ^ -5` and `10 ^ 15`, and otherwise a signed exponent, as in `1e+16` and `1.5e-6`.
-/

set_option autoImplicit false

namespace RpcFlow
namespace Binary64

/-- A positive decimal `digits · 10 ^ exponent`. -/
structure Decimal where
  digits : Nat
  exponent : Int
  deriving DecidableEq, Repr

/-- The reals that round to a double, as multiples of `2 ^ exponent`: from `low` to `high`, the ends
included when `closed` holds.  `value` is the double itself. -/
structure Basin where
  low : Nat
  value : Nat
  high : Nat
  exponent : Int
  closed : Bool
  deriving Repr

/-- Below a power of two the gap to the lower neighbour is half as wide, except among the least
numbers. -/
def basin (x : Binary64) : Basin :=
  let narrow := x.significand = Nat.pow 2 52 ∧ x.exponent > minExponent
  { low := 4 * x.significand - (if narrow then 1 else 2)
    value := 4 * x.significand
    high := 4 * x.significand + 2
    exponent := x.exponent - 2
    closed := x.significand % 2 == 0 }

/-- `a · 2 ^ p` compared with `b · 10 ^ q`. -/
def comparePowers (a : Nat) (p : Int) (b : Nat) (q : Int) : Ordering :=
  compare (a * Nat.pow 2 p.toNat * Nat.pow 10 (-q).toNat)
    (b * Nat.pow 10 q.toNat * Nat.pow 2 (-p).toNat)

/-- Does the decimal round to the double of this basin? -/
def Basin.holds (b : Basin) (d : Decimal) : Bool :=
  let lower := comparePowers b.low b.exponent d.digits d.exponent
  let upper := comparePowers b.high b.exponent d.digits d.exponent
  (lower == .lt || (b.closed && lower == .eq)) && (upper == .gt || (b.closed && upper == .eq))

/-- The greatest multiple of `10 ^ q` that is at most `a · 2 ^ p`, as a count of `10 ^ q`. -/
def floorOnGrid (a : Nat) (p q : Int) : Nat :=
  (a * Nat.pow 2 p.toNat * Nat.pow 10 (-q).toNat) /
    (Nat.pow 10 q.toNat * Nat.pow 2 (-p).toNat)

/-- The nearer of the two grid points next to the value that belongs to the basin; at equal distance
the even count. -/
def Basin.onGrid (b : Basin) (q : Int) : Option Decimal :=
  let n := floorOnGrid b.value b.exponent q
  let below : Decimal := ⟨n, q⟩
  let above : Decimal := ⟨n + 1, q⟩
  match b.holds below && n != 0, b.holds above with
  | false, false => none
  | true, false => some below
  | false, true => some above
  | true, true =>
    -- twice the value against the sum of the two points
    match comparePowers (2 * b.value) b.exponent (2 * n + 1) q with
    | .lt => some below
    | .gt => some above
    | .eq => some (if n % 2 = 0 then below else above)

/-- Looks at the grids `10 ^ q`, `10 ^ (q - 1)`, … . -/
def Basin.search (b : Basin) : Nat → Int → Option Decimal
  | 0, _ => none
  | steps + 1, q =>
    match b.onGrid q with
    | some d => some d
    | none => b.search steps (q - 1)

/-- Drops zeros at the end of the digits. -/
def Decimal.trim : Nat → Decimal → Decimal
  | 0, d => d
  | steps + 1, d =>
    if d.digits % 10 = 0 ∧ d.digits ≠ 0 then trim steps ⟨d.digits / 10, d.exponent + 1⟩ else d

/-- An exponent `q` such that `10 ^ q` is above the value and less than a thousand times as large. -/
def gridAbove (x : Binary64) : Int :=
  ((x.significand.log2 : Int) + x.exponent) * 30103 / 100000 + 2

/-- The shortest decimal that reads back as the magnitude of `x`, without zeros at its end. -/
def shortest (x : Binary64) : Decimal :=
  ((x.basin.search 25 x.gridAbove).getD ⟨x.significand, 0⟩).trim 20

/-! ## The text -/

/-- `count` zeros. -/
def zeros (count : Nat) : String := String.ofList (List.replicate count '0')

/-- Digits with the point after the first `place` of them. -/
def withPoint (digits : List Char) (place : Nat) : String :=
  String.ofList (digits.take place) ++ "." ++ String.ofList (digits.drop place)

/-- The text of a positive decimal. -/
def Decimal.render (d : Decimal) : String :=
  let digits := (toString d.digits).toList
  let lead : Int := d.exponent + digits.length - 1
  if 0 ≤ lead ∧ lead ≤ 15 then
    if digits.length ≤ lead.toNat + 1 then
      String.ofList digits ++ zeros (lead.toNat + 1 - digits.length) ++ ".0"
    else withPoint digits (lead.toNat + 1)
  else if -5 ≤ lead ∧ lead < 0 then
    "0." ++ zeros ((-lead).toNat - 1) ++ String.ofList digits
  else
    let head := if digits.length ≤ 1 then String.ofList digits else withPoint digits 1
    let sign := if lead < 0 then "-" else "+"
    head ++ "e" ++ sign ++ toString lead.natAbs

/-- The text of a double. -/
def render (x : Binary64) : String :=
  let sign := if x.negative then "-" else ""
  if x.isZero then sign ++ "0.0" else sign ++ x.shortest.render

end Binary64
end RpcFlow
