import RpcFlow.Dict
import RpcFlow.Number.Shortest
import RpcFlow.Number.Word

/-!
# JSON values

Integers that fit 64 bits, signed or unsigned, are kept apart from all other numbers, which are
doubles.  The members of an object are a `Dict`: sorted by key, each key once.

* `Json.get?` reads a member, `Json.object` builds an object from entries in any order.
* `Json.agrees` is equality of values, under which the two floating zeros are the same number;
  an integer never agrees with a double.
* `Json.decEq` decides equality proper.
-/

set_option autoImplicit false

namespace RpcFlow

/-- A JSON value. -/
inductive Json where
  | null
  | bool (value : Bool)
  | int (value : Int)
  | float (value : Binary64)
  | str (value : String)
  | arr (items : List Json)
  | obj (members : List (String × Json))
  deriving Repr, Inhabited

namespace Json

/-- The integers a JSON number keeps exactly. -/
def minInt : Int := minSigned 64
def maxInt : Int := maxUnsigned 64

/-- The object with these members; of a repeated key the last entry counts. -/
def object (entries : List (String × Json)) : Json := .obj (Dict.ofEntries entries)

def isNull : Json → Bool
  | .null => true
  | _ => false

/-- The member `key` of an object; other values have no members. -/
def get? : Json → String → Option Json
  | .obj members, key => Dict.at? members key
  | _, _ => none

/-- The members of an object. -/
def members? : Json → Option (Dict Json)
  | .obj members => some members
  | _ => none

def bool? : Json → Option Bool
  | .bool b => some b
  | _ => none

/-- An integer that is not negative. -/
def nat? : Json → Option Nat
  | .int n => if 0 ≤ n then some n.toNat else none
  | _ => none

def int? : Json → Option Int
  | .int n => some n
  | _ => none

def str? : Json → Option String
  | .str s => some s
  | _ => none

def items? : Json → Option (List Json)
  | .arr items => some items
  | _ => none

/-! ## Equality -/

mutual

/-- Equality of JSON values is decidable. -/
def decEq : (a b : Json) → Decidable (a = b)
  | .null, .null => isTrue rfl
  | .bool a, .bool b => if h : a = b then isTrue (h ▸ rfl) else isFalse fun e => h (by injection e)
  | .int a, .int b => if h : a = b then isTrue (h ▸ rfl) else isFalse fun e => h (by injection e)
  | .float a, .float b =>
    if h : a = b then isTrue (h ▸ rfl) else isFalse fun e => h (by injection e)
  | .str a, .str b => if h : a = b then isTrue (h ▸ rfl) else isFalse fun e => h (by injection e)
  | .arr a, .arr b =>
    match decEqItems a b with
    | isTrue h => isTrue (h ▸ rfl)
    | isFalse h => isFalse fun e => h (by injection e)
  | .obj a, .obj b =>
    match decEqMembers a b with
    | isTrue h => isTrue (h ▸ rfl)
    | isFalse h => isFalse fun e => h (by injection e)
  | .null, .bool _ | .null, .int _ | .null, .float _ | .null, .str _ | .null, .arr _
  | .null, .obj _ => isFalse nofun
  | .bool _, .null | .bool _, .int _ | .bool _, .float _ | .bool _, .str _ | .bool _, .arr _
  | .bool _, .obj _ => isFalse nofun
  | .int _, .null | .int _, .bool _ | .int _, .float _ | .int _, .str _ | .int _, .arr _
  | .int _, .obj _ => isFalse nofun
  | .float _, .null | .float _, .bool _ | .float _, .int _ | .float _, .str _ | .float _, .arr _
  | .float _, .obj _ => isFalse nofun
  | .str _, .null | .str _, .bool _ | .str _, .int _ | .str _, .float _ | .str _, .arr _
  | .str _, .obj _ => isFalse nofun
  | .arr _, .null | .arr _, .bool _ | .arr _, .int _ | .arr _, .float _ | .arr _, .str _
  | .arr _, .obj _ => isFalse nofun
  | .obj _, .null | .obj _, .bool _ | .obj _, .int _ | .obj _, .float _ | .obj _, .str _
  | .obj _, .arr _ => isFalse nofun

def decEqItems : (a b : List Json) → Decidable (a = b)
  | [], [] => isTrue rfl
  | [], _ :: _ | _ :: _, [] => isFalse nofun
  | x :: xs, y :: ys =>
    match decEq x y with
    | isFalse h => isFalse fun e => h (by injection e)
    | isTrue h₁ =>
      match decEqItems xs ys with
      | isTrue h₂ => isTrue (h₁ ▸ h₂ ▸ rfl)
      | isFalse h => isFalse fun e => h (by injection e)

def decEqMembers : (a b : List (String × Json)) → Decidable (a = b)
  | [], [] => isTrue rfl
  | [], _ :: _ | _ :: _, [] => isFalse nofun
  | (k, x) :: xs, (l, y) :: ys =>
    if hk : k = l then
      match decEq x y with
      | isFalse h => isFalse fun e => h (by injection e with e; injection e)
      | isTrue h₁ =>
        match decEqMembers xs ys with
        | isTrue h₂ => isTrue (hk ▸ h₁ ▸ h₂ ▸ rfl)
        | isFalse h => isFalse fun e => h (by injection e)
    else isFalse fun e => hk (by injection e with e; injection e)

end

instance : DecidableEq Json := decEq

mutual

/-- Equality of values: doubles are compared as numbers, everything else as it is written. -/
def agrees : Json → Json → Bool
  | .float a, .float b => a.agrees b
  | .arr a, .arr b => agreeItems a b
  | .obj a, .obj b => agreeMembers a b
  | .null, .null => true
  | .bool a, .bool b => a == b
  | .int a, .int b => a == b
  | .str a, .str b => a == b
  | _, _ => false

def agreeItems : List Json → List Json → Bool
  | [], [] => true
  | x :: xs, y :: ys => agrees x y && agreeItems xs ys
  | _, _ => false

def agreeMembers : List (String × Json) → List (String × Json) → Bool
  | [], [] => true
  | (k, x) :: xs, (l, y) :: ys => k == l && agrees x y && agreeMembers xs ys
  | _, _ => false

end

mutual

theorem agrees_refl : ∀ a : Json, a.agrees a = true
  | .null => rfl
  | .bool _ => by simp [agrees]
  | .int _ => by simp [agrees]
  | .float x => by simp [agrees, Binary64.agrees_refl]
  | .str _ => by simp [agrees]
  | .arr items => by simp [agrees, agreeItems_refl items]
  | .obj members => by simp [agrees, agreeMembers_refl members]

theorem agreeItems_refl : ∀ a : List Json, agreeItems a a = true
  | [] => rfl
  | x :: xs => by simp [agreeItems, agrees_refl x, agreeItems_refl xs]

theorem agreeMembers_refl : ∀ a : List (String × Json), agreeMembers a a = true
  | [] => rfl
  | (_, x) :: xs => by simp [agreeMembers, agrees_refl x, agreeMembers_refl xs]

end

end Json
end RpcFlow
