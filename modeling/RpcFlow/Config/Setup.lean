import RpcFlow.Config.Validation
import RpcFlow.Session

/-!
# Setting up a configuration

A configuration without problems becomes a client with its methods and the settings of an engine.

* `Config.newClient` builds the client, and `Config.setup` changes the settings of an engine.
* `Session.ofConfig` starts an engine and its client.
-/

set_option autoImplicit false

namespace RpcFlow

/-- The method that an entry declares; its strategies are given as tables. -/
def MethodEntry.method (m : MethodEntry) (fullName : String) (tables : List Table) (cell : Nat) :
    Method :=
  { Method.plain fullName cell with
    http := m.http
    envelope := m.envelope
    expiresAfter := (m.cacheExpiresAfterMs.map Duration.ofMillis).getD .longest
    bindable := m.bindable
    noBatch := m.noBatch
    defaults := Dict.ofEntries m.defaults }.withTables tables

namespace Config

/-- The method of an entry, or the first of its strategies that does not exist. -/
def method (c : Config) (m : MethodEntry) (cell : Nat) : Except ConfigError Method :=
  match c.tables m with
  | .ok tables => .ok (m.method (c.fullName m) tables cell)
  | .error problem => .error (.invalid [problem])

/-- The client with all methods, whose calls go out over a transport. -/
def newClient (c : Config) (transport : String) : Except ConfigError Client := do
  c.validate
  let methods ← (c.methods.zipIdx 1).mapM fun e => c.method e.1 e.2
  let start := (Client.plain transport).withMaxBatchSize c.client.maxBatchSize
  return methods.foldl Client.register start

/-- The settings of an engine with the configured window and retries. -/
def setup (c : Config) (s : EngineSetup) : EngineSetup :=
  { s with window := c.engine.window, retries := c.engine.retries }

end Config

/-- A session with the configured engine and client. -/
def Session.ofConfig (c : Config) (world : Bench) (s : EngineSetup) (transport : String) :
    Except ConfigError Session := do
  let client ← c.newClient transport
  return Session.start world (c.setup s) client (c.methods.length + 1)

end RpcFlow
