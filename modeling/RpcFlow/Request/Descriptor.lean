import RpcFlow.Codec
import RpcFlow.Envelope
import RpcFlow.Request.Basic
import RpcFlow.Strategy.Merged
import RpcFlow.Time

/-!
# Request descriptors

A descriptor is everything the pipeline needs to know about one call: the body as it is sent, where
it is sent, how the task is routed and how the answer is read.  Two descriptors of one method with
the same canonical body are equivalent; that body's text is the key they share.

* `Descriptor.Options` are the choices of a caller, `Descriptor.Options.plain` the usual ones.
* `Descriptor.build` writes the bodies and fills in what was left open.
-/

set_option autoImplicit false

namespace RpcFlow

/-- Whether a call sends its body or only headers and query. -/
inductive HttpMethod where
  | get
  | post
  deriving DecidableEq, Repr, Inhabited

namespace HttpMethod

/-- The name of a verb when a value is shown. -/
def label : HttpMethod → String
  | get => "Get"
  | post => "Post"

/-- The verbs with their names. -/
def named : List (String × HttpMethod) := [("get", get), ("post", post)]

/-- Reads a verb. -/
def ofJson (found : Json) : Json.Shaped HttpMethod := Json.asVariant named found

end HttpMethod

/-- The query entry that names the methods of a call. -/
def methodQuery : String := "applicationMethod"

/-- One call, ready for the pipeline. -/
structure Descriptor where
  method : String
  http : HttpMethod
  query : Dict String
  request : Request
  /-- The text of the body as it is sent. -/
  flat : String
  /-- The text of the canonical body. -/
  cacheKey : String
  resultType : ResultType
  /-- The name of the transport; calls can share a wire call only if it is the same. -/
  transport : String
  strategy : Strategy
  expiresAfter : Duration
  envelope : Envelope
  headers : Dict String
  /-- May the call join a task that is already under way? -/
  bindable : Bool
  /-- The greatest number of requests on a wire call with this one. -/
  maxBatchSize : Nat

namespace Descriptor

/-- What a caller may choose; what is left open gets its usual value. -/
structure Options where
  http : HttpMethod
  query : Option (Dict String)
  resultType : ResultType
  strategy : Option Strategy
  expiresAfter : Duration
  envelope : Envelope
  headers : Dict String
  bindable : Bool
  maxBatchSize : Nat

namespace Options

/-- The usual choices: sent alone, kept for good, open to sharing. -/
def plain : Options where
  http := .post
  query := none
  resultType := .any
  strategy := none
  expiresAfter := .longest
  envelope := .standard
  headers := []
  bindable := true
  maxBatchSize := 1

/-- A batch holds at least one request. -/
def withMaxBatchSize (o : Options) (size : Nat) : Options := { o with maxBatchSize := max size 1 }

end Options

/-- Writes the bodies of a request and completes its descriptor; `cell` is the identity of the
strategy if the caller chose none. -/
def build (codec : Codec) (request : Request) (transport : String) (cell : Nat) (o : Options) :
    Except CallError Descriptor := do
  let flat ← codec.encode request.toJson
  let cacheKey ← codec.encode request.canonical.toJson
  return {
    method := request.method
    http := o.http
    query := o.query.getD [(methodQuery, request.method)]
    request
    flat
    cacheKey
    resultType := o.resultType
    transport
    strategy := o.strategy.getD (Strategy.fallback cell)
    expiresAfter := o.expiresAfter
    envelope := o.envelope
    headers := o.headers
    bindable := o.bindable
    maxBatchSize := max o.maxBatchSize 1 }

/-- Does the call serve this method and, if one is given, this body? -/
def responds (d : Descriptor) (method : String) (cacheKey : Option String) : Bool :=
  d.method == method && cacheKey.all (d.cacheKey == ·)

/-- The descriptor shown as a value. -/
def render (d : Descriptor) : String :=
  Text.record "RequestDescriptor"
    [("method", Text.quoted d.method), ("http_method", d.http.label),
      ("cache_key", Text.quoted d.cacheKey), ("result_type", d.resultType.name),
      ("strategy", Text.quoted d.strategy.label), ("bindable", toString d.bindable),
      ("max_batch_size", toString d.maxBatchSize)]

theorem one_le_maxBatchSize_of_build {codec : Codec} {request : Request} {transport : String}
    {cell : Nat} {o : Options} {d : Descriptor} (h : build codec request transport cell o = .ok d) :
    1 ≤ d.maxBatchSize := by
  unfold build at h
  cases h₁ : codec.encode request.toJson with
  | error e => simp [h₁, bind, Except.bind] at h
  | ok flat =>
    cases h₂ : codec.encode request.canonical.toJson with
    | error e => simp [h₁, h₂, bind, Except.bind] at h
    | ok key =>
      simp [h₁, h₂, bind, Except.bind, pure, Except.pure] at h
      subst h
      exact Nat.le_max_right _ _

end Descriptor
end RpcFlow
