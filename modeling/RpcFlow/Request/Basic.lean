import RpcFlow.CallError

/-!
# Request bodies

A request names a method and may carry parameters: either named ones, added one by one, or one
value as a whole.  The two ways exclude each other.

* `Request.addParameter` and `Request.setWhole` add to a request or say why they cannot.
* `Request.agrees` compares requests without their ids; `Request.canonical` is the common form of
  requests that agree, with id zero.
-/

set_option autoImplicit false

namespace RpcFlow

/-- The body of a request. -/
structure Request where
  id : Nat
  method : String
  params : Option Json
  /-- Were the parameters given as a whole? -/
  whole : Bool
  deriving DecidableEq, Repr, Inhabited

namespace Request

/-- The request without parameters. -/
def bare (id : Nat) (method : String) : Request := ⟨id, method, none, false⟩

/-- Binds a name in parameters that are an object; other values are left alone. -/
def bindIn (params : Json) (name : String) (value : Json) : Json :=
  match params with
  | .obj members => .obj (Dict.put members name value)
  | other => other

/-- Adds a named parameter. -/
def addParameter (r : Request) (name : String) (value : Json) : Except BuildError Request :=
  if r.whole then .error .bodyAlreadySet
  else .ok { r with params := some (bindIn (r.params.getD (.obj [])) name value) }

/-- Takes a value as the whole of the parameters. -/
def setWhole (r : Request) (value : Json) : Except BuildError Request :=
  if r.params.isSome then .error .paramsAlreadySet
  else .ok { r with params := some value, whole := true }

/-- Adds named parameters in order. -/
def addParameters (r : Request) (entries : List (String × Json)) : Except BuildError Request :=
  entries.foldlM (fun r e => r.addParameter e.1 e.2) r

/-- The request as it is sent. -/
def toJson (r : Request) : Json :=
  Json.object
    ([("id", .int r.id), ("jsonrpc", .str "2.0"), ("method", .str r.method)] ++
      (r.params.map fun p => ("params", p)).toList)

/-- The request with id zero. -/
def canonical (r : Request) : Request := { r with id := 0 }

/-- Same method and same parameters, whatever the ids. -/
def agrees (a b : Request) : Bool :=
  a.method == b.method &&
    match a.params, b.params with
    | none, none => true
    | some p, some q => p.agrees q
    | _, _ => false

theorem agrees_refl (r : Request) : r.agrees r = true := by
  cases h : r.params <;> simp [agrees, h, Json.agrees_refl]

end Request
end RpcFlow
