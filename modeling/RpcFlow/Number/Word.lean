/-!
# Numbers of a fixed width

How many values some bits have, and the greatest and least numbers they can hold with and without a
sign.
-/

set_option autoImplicit false

namespace RpcFlow

/-- The number of values of some bits. -/
def wordCount (bits : Nat) : Nat := Nat.pow 2 bits

/-- The greatest number without a sign. -/
def maxUnsigned (bits : Nat) : Nat := wordCount bits - 1

/-- The greatest number with a sign. -/
def maxSigned (bits : Nat) : Nat := wordCount (bits - 1) - 1

/-- The least number with a sign. -/
def minSigned (bits : Nat) : Int := -(wordCount (bits - 1) : Int)

example : maxUnsigned 8 = 255 := rfl
example : minSigned 8 = -128 ∧ maxSigned 8 = 127 := by decide

end RpcFlow
