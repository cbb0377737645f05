import RpcFlow.ResultType

/-!
# Why a request fails

Every task ends with a value or a `CallError`.  The transport reports its own, narrower
`TransportError`, and building a request reports a `BuildError` before anything is sent.

* `CallError.message`, `TransportError.message` and `BuildError.message` are the texts of errors.
* `CallError.report?` reads a declared error as the error object of the protocol.
-/

set_option autoImplicit false

namespace RpcFlow

/-- How a task fails. -/
inductive CallError where
  /-- The transport could not be used. -/
  | network (reason : String)
  /-- The server answered with a status outside the successful ones. -/
  | http (code : Nat) (body : Option String)
  /-- An answer could not be read, or is not of the declared type. -/
  | conversion (reason : String)
  /-- The server declared an error in its answer. -/
  | declared (payload : Json)
  /-- A result failed validation. -/
  | validation (reason : String)
  /-- A stage handler crashed. -/
  | crashed (reason : String)
  /-- The flow of the task ended early. -/
  | interrupted (reason : String)
  deriving DecidableEq, Repr

namespace CallError

/-- The text of an error. -/
def message : CallError → String
  | network reason => "Network error: " ++ reason
  | http code _ => "Http code error: " ++ toString code
  | conversion reason => "Conversion error: " ++ reason
  | declared payload => "Response error: " ++ payload.render
  | validation reason => "Validation error: " ++ reason
  | crashed reason => "Unknown external error: " ++ reason
  | interrupted reason => "Interrupt flow requested: " ++ reason

/-- Only a failure of the transport itself is a network failure. -/
def isNetwork : CallError → Bool
  | network _ => true
  | _ => false

/-- A declared error as the error object of the protocol, if it has that shape. -/
def report? : CallError → Option ErrorReport
  | declared payload => (ErrorReport.read payload).toOption
  | _ => none

end CallError

/-- How a transport fails. -/
inductive TransportError where
  | io (reason : String)
  | http (code : Nat) (body : Option String)
  deriving DecidableEq, Repr

namespace TransportError

/-- The text of an error. -/
def message : TransportError → String
  | io reason => "I/O error: " ++ reason
  | http code _ => "Http code error: " ++ toString code

/-- The failure of a task whose call failed. -/
def toCallError : TransportError → CallError
  | io reason => .network reason
  | http code body => .http code body

end TransportError

/-- Why a request cannot be built. -/
inductive BuildError where
  | unknownMethod (method : String)
  | bodyAlreadySet
  | paramsAlreadySet
  | invalidParams (method reason : String)
  deriving DecidableEq, Repr

namespace BuildError

/-- The text of an error. -/
def message : BuildError → String
  | unknownMethod method => "Method '" ++ method ++ "' is not registered"
  | bodyAlreadySet => "The body already has been set"
  | paramsAlreadySet => "The params already have been set"
  | invalidParams method reason =>
    "Failed to serialize parameters for '" ++ method ++ "': " ++ reason

end BuildError

/-- Why a client call fails: before it is sent, or in flight. -/
inductive ClientError where
  | build (error : BuildError)
  | call (error : CallError)
  deriving DecidableEq, Repr

namespace ClientError

/-- The text of an error. -/
def message : ClientError → String
  | build e => e.message
  | call e => e.message

/-- The failure in flight, if the request got that far. -/
def inFlight? : ClientError → Option CallError
  | build _ => none
  | call e => some e

end ClientError
end RpcFlow
