import RpcFlow.CallError
import RpcFlow.Time

/-!
# Wire calls

What goes to a server and what comes back: a call with headers, a query and, unless it only asks, a
body; and a response, a failure of the transport, or a crash.
-/

set_option autoImplicit false

namespace RpcFlow

/-- A call of a server. -/
structure WireCall where
  /-- The body that is sent; a call without one only asks. -/
  body : Option String
  headers : Dict String
  query : Dict String
  deriving DecidableEq, Repr

/-- A successful response. -/
structure Response where
  body : String
  headers : Dict String
  deriving DecidableEq, Repr

/-- What a call leads to. -/
inductive WireOutcome where
  | answered (response : Response)
  | failed (error : TransportError)
  | crashed (message : String)
  deriving DecidableEq, Repr

end RpcFlow
