import RpcFlow.Json.Printer

/-!
# Response envelopes

A result comes wrapped in an envelope, in one of three forms.  Unwrapping answers the text of the
result, nothing if the envelope holds none, or the text of the error that the server declared.

* standard: an error that is not null wins over the result;
* inner result: the result is an object with a flag `success` and either `data` or `errors`;
* inner error: the result may itself be an object with an error.
-/

set_option autoImplicit false

namespace RpcFlow

/-- Why an envelope yields no result. -/
inductive EnvelopeError where
  /-- It does not have the expected form. -/
  | malformed (reason : String)
  /-- The server declared an error; its text. -/
  | declared (payload : String)
  deriving DecidableEq, Repr

/-- The form of the envelopes of a method. -/
inductive Envelope where
  | standard
  | innerResult
  | innerError
  deriving DecidableEq, Repr, Inhabited

namespace Envelope

/-- The forms with their names. -/
def named : List (String × Envelope) :=
  [("default", standard), ("inner_result", innerResult), ("inner_error", innerError)]

/-- The name of a form. -/
def name : Envelope → String
  | standard => "default"
  | innerResult => "inner_result"
  | innerError => "inner_error"

/-- The member `error` of a value, unless it is absent or null. -/
def declaredError? (value : Json) : Option Json :=
  (value.get? "error").filter fun e => !e.isNull

/-- The members that every form needs, or what is wrong. -/
def opened (response : Json) : Except EnvelopeError Json :=
  match response with
  | .obj _ =>
    match declaredError? response with
    | some e => .error (.declared e.render)
    | none => .ok response
  | _ => .error (.malformed ("response is not an object: " ++ response.render))

/-- The text of the result in an envelope. -/
def unwrap (form : Envelope) (response : Json) : Except EnvelopeError (Option String) := do
  let envelope ← opened response
  let result := envelope.get? "result"
  match form with
  | standard => return result.map Json.render
  | innerResult =>
    match result with
    | none => return none
    | some inner =>
      match (inner.get? "success").bind Json.bool? with
      | none => .error (.malformed "result carries no boolean 'success' field")
      | some true => return (inner.get? "data").map Json.render
      | some false => .error (.declared ((inner.get? "errors").getD .null).render)
  | innerError =>
    match result.bind declaredError? with
    | some e => .error (.declared e.render)
    | none => return result.map Json.render

end Envelope
end RpcFlow
