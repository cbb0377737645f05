import RpcFlow.Number.Binary64

/-!
# Numbers written in decimal

* `Nat.ofDigits?` reads digits of a base, all of them and at least one.
* `Binary64.ofDecimalText?` is the double nearest to a number with an optional sign, fraction and
  exponent; a digit must stand before or after the point.
-/

set_option autoImplicit false

namespace RpcFlow

/-- The value of a digit in bases up to sixteen. -/
def digitValue? (c : Char) : Option Nat :=
  if '0' ≤ c ∧ c ≤ '9' then some (c.toNat - '0'.toNat)
  else if 'a' ≤ c ∧ c ≤ 'f' then some (c.toNat - 'a'.toNat + 10)
  else if 'A' ≤ c ∧ c ≤ 'F' then some (c.toNat - 'A'.toNat + 10)
  else none

/-- The number with these digits; nothing if there are none or one of them is not of the base. -/
def natOfDigits? (base : Nat) (digits : List Char) : Option Nat :=
  if digits.isEmpty then none
  else
    digits.foldlM
      (fun n c => (digitValue? c).bind fun d => if d < base then some (n * base + d) else none) 0

/-- Splits the sign off a number: is it a minus? -/
def splitSign : List Char → Bool × List Char
  | '-' :: rest => (true, rest)
  | '+' :: rest => (false, rest)
  | rest => (false, rest)

/-- A decimal integer with an optional sign. -/
def intOfDigits? (text : List Char) : Option Int :=
  let (negative, digits) := splitSign text
  (natOfDigits? 10 digits).map fun n => if negative then -(n : Int) else n

/-- The exponent at the end of a number; nothing at all is zero. -/
def exponentOf? : List Char → Option Int
  | [] => some 0
  | c :: rest => if c = 'e' || c = 'E' then intOfDigits? rest else none

/-- The double nearest to a decimal number; nothing for other texts and beyond the greatest. -/
def Binary64.ofDecimalText? (text : List Char) : Option Binary64 := do
  let (negative, body) := splitSign text
  let whole := body.takeWhile Char.isDigit
  let (fraction, rest) :=
    match body.dropWhile Char.isDigit with
    | '.' :: rest => (rest.takeWhile Char.isDigit, rest.dropWhile Char.isDigit)
    | rest => ([], rest)
  let digits ← natOfDigits? 10 (whole ++ fraction)
  let exponent ← exponentOf? rest
  Binary64.ofDecimal negative digits (exponent - fraction.length)

example : natOfDigits? 16 ['1', 'F'] = some 31 := by decide
example : intOfDigits? ['-', '7'] = some (-7) := by decide
example : natOfDigits? 10 ['1', 'F'] = none := by decide

end RpcFlow
