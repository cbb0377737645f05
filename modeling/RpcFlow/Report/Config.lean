import RpcFlow.Config.Setup
import RpcFlow.Report.Basic

/-!
# Configurations as JSON

How a configuration, the outcome of its check and the client that is built from it are reported to
tools.
-/

set_option autoImplicit false

namespace RpcFlow

/-- An entry as it is written, its names with and without the shared scope, and its strategies or
the first that does not exist. -/
def MethodEntry.toJson (c : Config) (m : MethodEntry) : Json :=
  let tables :=
    match c.tables m with
    | .ok tables => Json.ofTexts (tables.map Table.name)
    | .error problem => problem.toJson
  .object
    [("name", .str m.name), ("scope", .ofOption .str m.scope), ("full_name", .str (c.fullName m)),
      ("unscoped", .str (m.fullName none)), ("http", .str m.http.label),
      ("strategies", .ofTexts m.strategies), ("tables", tables),
      ("cache_expires_after_ms", .ofOption .ofNat m.cacheExpiresAfterMs),
      ("bindable", .bool m.bindable), ("no_batch", .bool m.noBatch),
      ("conversion", .str m.envelope.name), ("default_params", .asTextOf (.obj m.defaults))]

namespace Config

/-- A configuration with the usual values in place of what it leaves open. -/
def toJson (c : Config) : Json :=
  .object
    [("batch_window_ms", .ofOption .ofNat c.engine.batchWindowMs),
      ("batch_window", c.engine.window.toJson), ("max_network_retries", .ofNat c.engine.retries),
      ("max_batch_size", .ofNat c.client.maxBatchSize), ("scope", .ofOption .str c.client.scope),
      ("strategies",
        .object (c.strategies.map fun e => (e.1, ({ e.2 with name := e.1 } : Table).toJson))),
      ("methods", .arr (c.methods.map fun m => m.toJson c))]

/-- The outcome of the check. -/
def outcomeToJson (c : Config) : Json :=
  match c.validate with
  | .ok _ => .str "ok"
  | .error e => e.toJson

/-- What the check writes to the log. -/
def logToJson (c : Config) : Json :=
  .arr (c.validationReport.map fun m => .ofTexts [m.level.name, m.text])

/-- The methods of a session by name, each with the descriptor of a call without parameters. -/
def methodsToJson (s : Session) : List Json :=
  let step (acc : Session × List Json) (e : String × Method) : Session × List Json :=
    let (d, s) := acc.1.describe e.1 (.ok .null) .any
    let descriptor :=
      match d with
      | .ok d => d.toJson
      | .error e => e.toJson
    (s, .object [("spec", .str ("Some(" ++ e.2.render ++ ")")), ("descriptor", descriptor)] :: acc.2)
  (s.client.methods.foldl step (s, [])).2.reverse

/-- What is built from a configuration, over a transport that answers by itself. -/
def runtimeToJson (c : Config) : Json :=
  let world := Bench.ofTransports [("main", .echo [] (.ofMillis 0))]
  match Session.ofConfig c world (.usual 0) "main" with
  | .error e => e.toJson
  | .ok s =>
    let engine := s.read Session.mainEngine "" Engine.render
    .object
      [("methods", .arr (methodsToJson s)), ("debug", .str (s.client.render ++ " " ++ engine))]

/-- Everything about a configuration: itself, its check, some strategies by name and what is built
from it. -/
def reportToJson (c : Config) (names : List String) : Json :=
  .object
    [("config", c.toJson), ("validated", c.outcomeToJson), ("logs", c.logToJson),
      ("resolved", .arr (names.map fun name => .ofOption Table.toJson (c.table? name))),
      ("runtime", c.runtimeToJson)]

end Config
end RpcFlow
