import RpcFlow.Json.Printer
import RpcFlow.Text.Quoted

/-!
# Reading shapes out of JSON

A value is read as a number of a given width, a text, a list, a record and so on; when it has
another shape, a `ShapeError` says what was found and what was expected.

* `ShapeError.message` is the text of an error.
* `Json.asInt`, `Json.asText`, `Json.asItems`, … read one shape each.
* `Json.asVariant` reads one of a fixed set of names, written as a text or as an object with that
  one key and the value null.
-/

set_option autoImplicit false

namespace RpcFlow

/-- Why a JSON value does not have an expected shape. -/
inductive ShapeError where
  | wrongType (found : Json) (expected : String)
  | wrongValue (found : Json) (expected : String)
  | wrongLength (found : Nat) (expected : String)
  | unknownName (found : String) (known : List String)
  deriving DecidableEq, Repr

/-- What a value is, as error texts name it. -/
def Json.kindText : Json → String
  | .null => "null"
  | .bool b => "boolean `" ++ (if b then "true" else "false") ++ "`"
  | .int n => "integer `" ++ toString n ++ "`"
  | .float x => "floating point `" ++ x.render ++ "`"
  | .str s => "string " ++ Text.quoted s
  | .arr _ => "sequence"
  | .obj _ => "map"

namespace ShapeError

/-- The choice between some names, in the order they are declared. -/
def choices : List String → String
  | [] => "there are no variants"
  | [a] => "expected `" ++ a ++ "`"
  | [a, b] => "expected `" ++ a ++ "` or `" ++ b ++ "`"
  | names => "expected one of " ++ ", ".intercalate (names.map fun n => "`" ++ n ++ "`")

/-- The text of an error. -/
def message : ShapeError → String
  | wrongType found expected => "invalid type: " ++ found.kindText ++ ", expected " ++ expected
  | wrongValue found expected => "invalid value: " ++ found.kindText ++ ", expected " ++ expected
  | wrongLength found expected => "invalid length " ++ toString found ++ ", expected " ++ expected
  | unknownName found known => "unknown variant `" ++ found ++ "`, " ++ choices known

end ShapeError

namespace Json

/-- The outcome of reading a shape. -/
abbrev Shaped (α : Type) := Except ShapeError α

/-- An integer between `low` and `high`; `name` is the name of that range. -/
def asInt (name : String) (low high : Int) : Json → Shaped Int
  | .int n => if low ≤ n ∧ n ≤ high then .ok n else .error (.wrongValue (.int n) name)
  | found => .error (.wrongType found name)

/-- An integer of 64 bits with a sign. -/
def asInt64 : Json → Shaped Int := asInt "i64" (minSigned 64) (maxSigned 64)

/-- A number, as a double. -/
def asFloat : Json → Shaped Binary64
  | .int n => .ok (Binary64.ofInt n)
  | .float x => .ok x
  | found => .error (.wrongType found "f64")

def asBool : Json → Shaped Bool
  | .bool b => .ok b
  | found => .error (.wrongType found "a boolean")

def asText : Json → Shaped String
  | .str s => .ok s
  | found => .error (.wrongType found "a string")

def asUnit : Json → Shaped Unit
  | .null => .ok ()
  | found => .error (.wrongType found "unit")

def asItems : Json → Shaped (List Json)
  | .arr items => .ok items
  | found => .error (.wrongType found "a sequence")

def asMembers : Json → Shaped (Dict Json)
  | .obj members => .ok members
  | found => .error (.wrongType found "a map")

/-- Null, or a value of the given shape. -/
def asOption {α : Type} (read : Json → Shaped α) : Json → Shaped (Option α)
  | .null => .ok none
  | found => (read found).map some

/-- A map whose values all have the given shape. -/
def asDict {α : Type} (read : Json → Shaped α) (found : Json) : Shaped (Dict α) := do
  (← asMembers found).mapM fun e => do return (e.1, ← read e.2)

/-- The error for an array with more items than the record it is read as. -/
def tooManyItems (count : Nat) : ShapeError := .wrongLength count "fewer elements in array"

/-- One of the named values, declared in the given order. -/
def asVariant {α : Type} (known : List (String × α)) (found : Json) : Shaped α :=
  let find (name : String) : Shaped α :=
    match known.find? fun k => k.1 == name with
    | some k => .ok k.2
    | none => .error (.unknownName name (known.map Prod.fst))
  match found with
  | .str name => find name
  | .obj [(name, content)] => do
    let value ← find name
    asUnit content
    return value
  | .obj _ => .error (.wrongValue found "map with a single key")
  | _ => .error (.wrongType found "string or map")

end Json
end RpcFlow
