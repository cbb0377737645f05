import RpcFlow.Client.Method
import RpcFlow.Config.Problem
import RpcFlow.Document
import RpcFlow.Engine.Stages

/-!
# Configurations

A configuration declares methods, strategies of its own, and how the engine and the client are set
up.  Whatever it leaves open has a usual value.

* `MethodEntry.fullName` puts a method into its scope, or into the scope that all methods share.
* `Config.table?` finds a strategy by name: one that the configuration defines, or a preset.
* `Config.read` reads a configuration from a document of any notation.
-/

set_option autoImplicit false

namespace RpcFlow

/-- How the engine is set up. -/
structure EngineOptions where
  batchWindowMs : Option Nat
  maxNetworkRetries : Option Nat
  deriving DecidableEq, Repr

namespace EngineOptions

/-- The length of a window. -/
def window (o : EngineOptions) : Duration :=
  (o.batchWindowMs.map Duration.ofMillis).getD Stages.usualWindow

/-- How often a failed call is repeated. -/
def retries (o : EngineOptions) : Nat := o.maxNetworkRetries.getD Stages.usualRetries

end EngineOptions

/-- What all methods share. -/
structure ClientOptions where
  batchSize : Option Nat
  scope : Option String
  deriving DecidableEq, Repr

/-- The number of requests that share a wire call. -/
def ClientOptions.maxBatchSize (o : ClientOptions) : Nat := o.batchSize.getD 1

/-- A declared method. -/
structure MethodEntry where
  name : String
  scope : Option String
  http : HttpMethod
  strategies : List String
  cacheExpiresAfterMs : Option Nat
  bindable : Bool
  noBatch : Bool
  envelope : Envelope
  defaults : Dict Json
  deriving DecidableEq, Repr

/-- The name of a method in its own scope, or in the scope that all methods share. -/
def MethodEntry.fullName (m : MethodEntry) (shared : Option String) : String :=
  Method.qualified ((m.scope.or shared).getD "") m.name

/-- A configuration. -/
structure Config where
  engine : EngineOptions
  client : ClientOptions
  strategies : Dict Table
  methods : List MethodEntry

namespace Config

/-- The full name of a method. -/
def fullName (c : Config) (m : MethodEntry) : String := m.fullName c.client.scope

/-- The strategy with a name: one that is defined here, or a preset. -/
def table? (c : Config) (name : String) : Option Table :=
  match Dict.at? c.strategies name with
  | some t => some { t with name }
  | none => (Preset.ofName? name).map Preset.table

/-- The strategies of a method, or the first that does not exist. -/
def tables (c : Config) (m : MethodEntry) : Except ConfigProblem (List Table) :=
  m.strategies.mapM fun name =>
    match c.table? name with
    | some t => .ok t
    | none => .error (.unknownStrategy (c.fullName m) name)

/-! ## Reading -/

section
variable {α : Type} [Document α]

open Document

/-- A list of stages. -/
def readStages (x : α) : Option (List Stage) :=
  list? (variant? (Stage.all.map fun s => (s.name, s))) x

def readDecision (x : α) : Option Decision := do
  let f ← fields? x
  let onSuccess ← f.withDefault 0 "on_success" readStages []
  let onFailure ← f.withDefault 1 "on_failure" readStages []
  return ⟨onSuccess, onFailure⟩

/-- The decisions of a table by stage; of a repeated stage the last one counts. -/
def readRoutes (x : α) : Option (List (Stage × Decision)) := do
  (← members? x).mapM fun e => do return (← Stage.ofName? e.1, ← readDecision e.2)

/-- A table, whose name is the key it stands under. -/
def readTable (x : α) : Option Table := do
  let f ← fields? x
  let routes ← f.withDefault 0 "algorithm" readRoutes []
  let flags ← f.withDefault 1 "metadata" (dict? text?) []
  return routes.foldl (fun t r => t.route r.1 r.2) { Table.empty "" with flags }

def readEngine (x : α) : Option EngineOptions := do
  let f ← fields? x
  let batchWindowMs ← f.optional 0 "batch_window_ms" word?
  let maxNetworkRetries ← f.optional 1 "max_network_retries" word?
  return ⟨batchWindowMs, maxNetworkRetries⟩

def readClient (x : α) : Option ClientOptions := do
  let f ← fields? x
  let batchSize ← f.optional 0 "max_batch_size" word?
  let scope ← f.optional 1 "scope" text?
  return ⟨batchSize, scope⟩

def readMethod (x : α) : Option MethodEntry := do
  let f ← fields? x
  let name ← f.required 0 "name" text?
  let scope ← f.optional 1 "scope" text?
  let http ← f.withDefault 2 "http_method" (variant? HttpMethod.named) .post
  let strategies ← f.withDefault 3 "strategies" (list? text?) []
  let cacheExpiresAfterMs ← f.optional 4 "cache_expires_after_ms" word?
  let bindable ← f.withDefault 5 "bindable" bool? true
  let noBatch ← f.withDefault 6 "no_batch" bool? false
  let envelope ← f.withDefault 7 "conversion" (variant? Envelope.named) .standard
  let defaults ← f.withDefault 8 "default_params" jsonDict? []
  return ⟨name, scope, http, strategies, cacheExpiresAfterMs, bindable, noBatch, envelope, defaults⟩

/-- Reads a configuration; fields that it does not know are passed over. -/
def read (x : α) : Option Config := do
  let f ← fields? x
  let engine ← f.withDefault 0 "engine" readEngine ⟨none, none⟩
  let client ← f.withDefault 1 "client" readClient ⟨none, none⟩
  let strategies ← f.withDefault 2 "strategies" (dict? readTable) []
  let methods ← f.withDefault 3 "methods" (list? readMethod) []
  return ⟨engine, client, strategies, methods⟩

end

end Config
end RpcFlow
