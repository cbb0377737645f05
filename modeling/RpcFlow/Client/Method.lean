import RpcFlow.Request.Descriptor

/-!
# Declared methods

A method is declared once with the way its calls travel, and every call of it starts from the
declared default parameters.

* `Method.body` merges the defaults with the parameters of a call: named parameters win over
  defaults, null adds nothing, and any other value is the whole of the parameters, which only a
  method without defaults can take.
-/

set_option autoImplicit false

namespace RpcFlow

/-- A declared method. -/
structure Method where
  name : String
  http : HttpMethod
  strategy : Strategy
  expiresAfter : Duration
  bindable : Bool
  /-- Do calls always travel alone? -/
  noBatch : Bool
  envelope : Envelope
  defaults : Dict Json

namespace Method

/-- A method with the usual settings; `cell` is the identity of its strategy. -/
def plain (name : String) (cell : Nat) : Method where
  name
  http := .post
  strategy := Strategy.fallback cell
  expiresAfter := .longest
  bindable := true
  noBatch := false
  envelope := .standard
  defaults := []

/-- A name inside a scope; the empty scope adds nothing. -/
def qualified (scope name : String) : String := if scope.isEmpty then name else scope ++ "." ++ name

/-- Merges tables into the strategy of the method; no tables keep the strategy it has. -/
def withTables (m : Method) (tables : List Table) : Method :=
  if tables.isEmpty then m else { m with strategy := Strategy.merge tables m.strategy.cell }

/-- Declares a default parameter. -/
def withDefault (m : Method) (name : String) (value : Json) : Method :=
  { m with defaults := Dict.put m.defaults name value }

/-- The body of a call with these parameters. -/
def body (m : Method) (id : Nat) (params : Json) : Except BuildError Request := do
  let start ← (Request.bare id m.name).addParameters m.defaults
  match params with
  | .null => return start
  | .obj named => start.addParameters named
  | whole => start.setWhole whole

/-- The method shown as a value. -/
def render (m : Method) : String :=
  Text.record "MethodSpec"
    [("name", Text.quoted m.name), ("http_method", m.http.label),
      ("strategy", Text.quoted m.strategy.label), ("bindable", toString m.bindable),
      ("no_batch", toString m.noBatch)]

end Method
end RpcFlow
