import RpcFlow.Client.Method

/-!
# The client

A client holds the declared methods and turns a method name and parameters into a descriptor.

* `Client.describe` builds a descriptor.  It takes the next request id when it starts on the body,
  even if the body or the descriptor then cannot be built, and a snapshot of the headers once the
  body is built.
-/

set_option autoImplicit false

namespace RpcFlow

/-- Declared methods and the settings all their calls share. -/
structure Client where
  transport : String
  codec : Codec
  /-- The header snapshots still to come; the last one stays. -/
  snapshots : List (Dict String)
  maxBatchSize : Nat
  methods : Dict Method

namespace Client

/-- The client without methods. -/
def plain (transport : String) : Client where
  transport
  codec := .standard
  snapshots := []
  maxBatchSize := 1
  methods := []

/-- A batch holds at least one request. -/
def withMaxBatchSize (c : Client) (size : Nat) : Client := { c with maxBatchSize := max size 1 }

/-- Declares a method, in place of an earlier one of that name. -/
def register (c : Client) (m : Method) : Client := { c with methods := Dict.put c.methods m.name m }

def method? (c : Client) (name : String) : Option Method := Dict.at? c.methods name

/-- The next header snapshot. -/
def snapshot (c : Client) : Dict String × Client :=
  match c.snapshots with
  | [] => ([], c)
  | [headers] => (headers, c)
  | headers :: rest => (headers, { c with snapshots := rest })

/-- Parameters of a call: a value, or something that has no JSON form and why. -/
abbrev Params := Except String Json

/-- The choices that a method and the client's settings make for one call. -/
def options (c : Client) (m : Method) (type : ResultType) (headers : Dict String) :
    Descriptor.Options where
  http := m.http
  query := none
  resultType := type
  strategy := some m.strategy
  expiresAfter := m.expiresAfter
  envelope := m.envelope
  headers
  bindable := m.bindable
  maxBatchSize := if m.noBatch then 1 else c.maxBatchSize

/-- The descriptor of a call, the next unused request id and the client afterwards. -/
def describe (c : Client) (id : Nat) (method : String) (params : Params) (type : ResultType) :
    Except ClientError Descriptor × Nat × Client :=
  match c.method? method with
  | none => (.error (.build (.unknownMethod method)), id, c)
  | some m =>
    match params with
    | .error reason => (.error (.build (.invalidParams method reason)), id, c)
    | .ok params =>
      match m.body id params with
      | .error e => (.error (.build e), id + 1, c)
      | .ok request =>
        let (headers, c) := c.snapshot
        match Descriptor.build c.codec request c.transport 0 (c.options m type headers) with
        | .error e => (.error (.call e), id + 1, c)
        | .ok d => (.ok d, id + 1, c)

/-- The client shown as a value. -/
def render (c : Client) : String :=
  Text.record "RpcClient"
    [("methods", toString c.methods.length), ("max_batch_size", toString c.maxBatchSize)]

end Client
end RpcFlow
