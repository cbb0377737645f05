import RpcFlow.CallError
import RpcFlow.Json.Reader

/-!
# Codecs

A codec writes request bodies and reads answers.  Reading checks the declared result type; a
missing body reads as null, which only some types accept.
-/

set_option autoImplicit false

namespace RpcFlow

/-- How bodies are written and answers are read. -/
inductive Codec where
  /-- JSON text, checked against the declared type. -/
  | standard
  /-- Refuses to write anything; reads as the standard codec does. -/
  | refusing
  /-- JSON text of any type. -/
  | unchecked
  deriving DecidableEq, Repr, Inhabited

namespace Codec

/-- Reads a text as JSON. -/
def parse (text : String) : Except CallError Json :=
  match Json.read text with
  | .ok value => .ok value
  | .error e => .error (.conversion e.message)

/-- Reads a text, or null if there is none. -/
def parseBody : Option String → Except CallError Json
  | none => .ok .null
  | some text => parse text

/-- Writes a value. -/
def encode : Codec → Json → Except CallError String
  | refusing, _ => .error (.conversion "serializer refused")
  | _, value => .ok value.render

/-- The type that is checked when a result is declared to be of `type`. -/
def checked : Codec → ResultType → ResultType
  | unchecked, _ => .any
  | _, type => type

/-- Reads a body and checks that it is of the declared type. -/
def decode (codec : Codec) (body : Option String) (type : ResultType) : Except CallError Json := do
  let value ← parseBody body
  match (codec.checked type).check value with
  | none => .ok value
  | some reason => .error (.conversion reason)

end Codec
end RpcFlow
