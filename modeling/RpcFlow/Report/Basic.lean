import RpcFlow.Client.Basic
import RpcFlow.Config.Problem
import RpcFlow.Message

/-!
# Values as JSON

How errors, tables, strategies, descriptors and log records are reported to tools: as JSON objects
with fixed member names.  JSON values inside a report are given as text, and what is absent is null.
-/

set_option autoImplicit false

namespace RpcFlow

namespace Json

/-- A value as text. -/
def asTextOf (value : Json) : Json := .str value.render

/-- A value that may be absent. -/
def ofOption {α : Type} (form : α → Json) : Option α → Json
  | some x => form x
  | none => .null

/-- A natural number. -/
def ofNat (n : Nat) : Json := .int n

/-- A list of texts. -/
def ofTexts (texts : List String) : Json := .arr (texts.map .str)

/-- An error by its name and text. -/
def ofError (name message : String) (more : List (String × Json)) : Json :=
  object ([("error", .str name), ("message", .str message)] ++ more)

end Json

/-- A length of time in milliseconds; the longest stands for "never". -/
def Duration.toJson (d : Duration) : Json :=
  if d = .longest then .str "max" else .ofNat d.wholeMillis

/-- A list of stages by name. -/
def Stage.listToJson (stages : List Stage) : Json := .ofTexts (stages.map name)

/-! ## Errors -/

/-- An error object with its data as text. -/
def ErrorReport.summary (r : ErrorReport) : Json :=
  .object
    [("code", .ofOption .int r.code), ("message", .ofOption .str r.message),
      ("data", .ofOption .asTextOf r.data)]

/-- An error object in one line. -/
def ErrorReport.line (r : ErrorReport) : String :=
  let shown : Option String → String
    | some s => "Some(" ++ s ++ ")"
    | none => "None"
  shown (r.code.map toString) ++ " " ++ shown (r.message.map Text.quoted) ++ " " ++
    (r.data.map Json.render).getD "none"

/-- The name of a kind of error. -/
def CallError.kind : CallError → String
  | .network _ => "Network"
  | .http .. => "HttpCode"
  | .conversion _ => "Conversion"
  | .declared _ => "ResponseError"
  | .validation _ => "Validation"
  | .crashed _ => "UnknownExternal"
  | .interrupted _ => "InterruptFlowRequested"

/-- What an error carries besides its text. -/
def CallError.details : CallError → List (String × Json)
  | .http code body => [("code", .ofNat code), ("body", .ofOption .str body)]
  | .declared payload => [("payload", .asTextOf payload)]
  | _ => []

def CallError.toJson (e : CallError) : Json :=
  let report :=
    match e with
    | .declared _ => [("rpc", Json.ofOption ErrorReport.summary e.report?)]
    | _ => []
  .ofError e.kind e.message (e.details ++ report)

/-- The name of a kind of error. -/
def BuildError.kind : BuildError → String
  | .unknownMethod _ => "UnknownMethod"
  | .bodyAlreadySet => "BodyAlreadySet"
  | .paramsAlreadySet => "ParamsAlreadySet"
  | .invalidParams .. => "InvalidParams"

def BuildError.toJson (e : BuildError) : Json := .ofError e.kind e.message []

def ClientError.toJson : ClientError → Json
  | .build e => e.toJson
  | .call e => e.toJson

/-- The name of a kind of inconsistency. -/
def ConfigProblem.kind : ConfigProblem → String
  | .unknownStrategy .. => "UnknownStrategy"
  | .duplicateMethod _ => "DuplicateMethod"
  | .invalidBatchSize _ => "InvalidBatchSize"
  | .noInitialRoute _ => "NoInitialRoute"

def ConfigProblem.toJson (p : ConfigProblem) : Json := .ofError p.kind p.message []

/-- An error of a configuration; faults of syntax have no text. -/
def ConfigError.toJson (e : ConfigError) : Json :=
  match e with
  | .yaml => .object [("error", .str "Yaml")]
  | .toml => .object [("error", .str "Toml")]
  | .io _ => .ofError "Io" e.message []
  | .unsupportedFormat _ => .ofError "UnsupportedFormat" e.message []
  | .invalid problems =>
    .ofError "Invalid" e.message [("problems", .arr (problems.map ConfigProblem.toJson))]

/-- A result or an error. -/
def CallError.resultToJson : Except CallError Json → Json
  | .ok value => .object [("ok", .asTextOf value)]
  | .error e => e.toJson

/-! ## Strategies and requests -/

/-- A decision as its two lists. -/
def Decision.toJson (d : Decision) : Json :=
  .arr [Stage.listToJson d.onSuccess, Stage.listToJson d.onFailure]

def Table.toJson (t : Table) : Json :=
  let decision (d : Decision) : Json :=
    .object
      [("on_success", Stage.listToJson d.onSuccess), ("on_failure", Stage.listToJson d.onFailure)]
  .object
    [("name", .str t.name),
      ("algorithm", .object (t.entries.map fun e => (e.1.name, decision e.2))),
      ("metadata", .ofStrings t.flags)]

def Strategy.toJson (s : Strategy) : Json :=
  let routes := Stage.all.filterMap fun stage =>
    (s.routes stage).map fun d => (stage.name, d.toJson)
  .object [("label", .str s.label), ("routes", .object routes)]

def Descriptor.toJson (d : Descriptor) : Json :=
  .object
    [("method", .str d.method), ("http", .str d.http.label), ("query", .ofStrings d.query),
      ("id", .ofNat d.request.id), ("flat", .str d.flat), ("cache_key", .str d.cacheKey),
      ("type", .str d.resultType.name), ("strategy", d.strategy.toJson),
      ("expires_ms", d.expiresAfter.toJson), ("headers", .ofStrings d.headers),
      ("bindable", .bool d.bindable), ("max_batch_size", .ofNat d.maxBatchSize),
      ("debug", .str d.render)]

/-! ## Messages -/

def Message.Record.toJson (r : Message.Record) : Json :=
  .object
    [("span", .bool r.isSpan), ("name", .str r.name), ("level", .str r.level.name),
      ("target", .str r.target),
      ("fields", .object (r.fields.map fun f => (f.1, .str f.2)))]

end RpcFlow
