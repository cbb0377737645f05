import RpcFlow.Engine.Bench
import RpcFlow.Report.Basic

/-!
# Runs as JSON

How verdicts, tasks, wire calls and everything an engine has noted down are reported to tools.

* `Json.timeline` puts entries in order: by their moment, and within one moment by their text, so
  that the order does not hang on who was given a turn first.
-/

set_option autoImplicit false

namespace RpcFlow

/-- A verdict with what kind it is. -/
def Verdict.toJson (v : Verdict) : Json :=
  let kinds := ("is", Json.arr [.bool v.isRoute, .bool v.isSuccess, .bool v.isFailure])
  match v with
  | .route next => .object [("route", Stage.listToJson next), kinds]
  | .success payload raw next =>
    .object
      [("success", .asTextOf payload), ("raw", .ofOption .str raw),
        ("next", Stage.listToJson next), kinds]
  | .failure error next =>
    .object [("failure", error.toJson), ("next", Stage.listToJson next), kinds]

def Task.toJson (t : Task) : Json :=
  let d := t.descriptor
  let delivered (v : Verdict) : Json :=
    .object [("verdict", v.toJson), ("result", CallError.resultToJson v.result)]
  .object
    [("id", .ofNat t.id), ("method", .str d.method), ("cache_key", .str d.cacheKey),
      ("holding", Stage.listToJson t.holding), ("finished", .bool t.isFinished),
      ("results", .arr (t.results.items.map Verdict.toJson)),
      ("results_count", .ofNat t.resultsCount),
      ("last_success", .ofOption Verdict.toJson t.lastSuccess?),
      ("last_error", .ofOption Verdict.toJson t.lastFailure?),
      ("delivered", .arr (t.delivered.items.map delivered)),
      ("has_delivered", .bool t.hasDelivered),
      ("stream", .str (if t.delivered.completed then "closed" else "open")),
      ("responds",
        .arr [.bool (d.responds d.method none), .bool (d.responds d.method (some d.cacheKey)),
          .bool (d.responds "other" none), .bool (d.responds d.method (some "other"))]),
      ("debug", .str t.render)]

def Note.toJson : Note → Json
  | .did what answer => .arr [.str what, .bool answer]
  | .said what => .str what
  | .saw p view =>
    .object
      [("stage", .str p.stage.name), ("completed", .bool view.completed),
        ("debug", .str (p.render view.completed)), ("task", view.task.toJson)]

/-! ## Wire calls -/

/-- A call with the number of its requests. -/
def WireCall.toJson (c : WireCall) : Json :=
  .object
    [("body", .ofOption .str c.body), ("headers", .ofStrings c.headers),
      ("query", .ofStrings c.query), ("batch_size", .ofNat c.batchSize)]

def SentCall.toJson (c : SentCall) : Json :=
  .object
    [("at", .ofNat c.moment), ("transport", .str c.transport),
      ("verb", .str (if c.call.body.isSome then "POST" else "GET")),
      ("body", .ofOption .str c.call.body), ("headers", .ofStrings c.call.headers),
      ("query", .ofStrings c.call.query)]

/-- What a transport has counted, with or without the calls themselves; a script counts nothing. -/
def Transport.counters (t : Transport) (withCalls : Bool) : List (String × Json) :=
  let count := Json.ofNat t.recorded.length
  let sizes := ("batch_sizes", Json.arr (t.recorded.map fun c => .ofNat c.batchSize))
  let calls := if withCalls then [("calls", Json.arr (t.recorded.map WireCall.toJson))] else []
  match t.kind with
  | .echo .. => [("call_count", count), sizes] ++ calls
  | .fixed _ => if withCalls then calls else [sizes]
  | .failingIo | .failingHttp _ => [("call_count", count)]
  | .flaky _ => [("successful_calls", count)]
  | .script _ => []

/-! ## What an engine has noted down -/

namespace Json

/-- Values in the order of their texts. -/
def sortedByText (values : List Json) : List Json :=
  ((values.map fun x => (x.render, x)).mergeSort fun a b => a.1 ≤ b.1).map Prod.snd

/-- Entries in order, each as an array that starts with its moment. -/
def timeline (entries : List (Moment × List Json)) : Json :=
  let timed := entries.map fun e =>
    let entry := Json.arr (.ofNat e.1 :: e.2)
    (e.1, entry.render, entry)
  let before (a b : Moment × String × Json) : Bool :=
    a.1 < b.1 || (a.1 == b.1 && a.2.1 ≤ b.2.1)
  .arr ((timed.mergeSort before).map fun e => e.2.2)

end Json

/-- Everything a fleet of engines has noted down: wire calls, counters, and the notes and finished
tasks of the first engine and the messages of all. -/
def Fleet.record (f : Fleet Bench) (earlier : List (Moment × Message)) : List (String × Json) :=
  let engines := f.engines.toList.map Prod.snd
  let counters := f.world.transports.filterMap fun t =>
    match t.2.kind with
    | .script _ => none
    | _ => some (t.1, Json.object (t.2.counters false))
  let notes := (engines.head?.map Engine.notes).getD []
  let finishes := (engines.head?.map Engine.finishes).getD []
  [("calls", .arr (f.world.sent.reverse.map SentCall.toJson)), ("stubs", .object counters),
    ("blocks", .timeline (notes.map fun x =>
      (x.1, [.str x.2.1.stage.name, .ofNat x.2.1.taskId, x.2.2.toJson]))),
    ("finished", .timeline (finishes.map fun x =>
      (x.moment, [.str x.strategy, .str x.method, .ofNat x.elapsed.wholeMillis]))),
    ("logs", .timeline ((earlier ++ engines.flatMap Engine.journal).map fun x =>
      (x.1, [.str x.2.level.name, .str x.2.text])))]

/-- The numbers of wire calls and of messages. -/
def Fleet.tally (f : Fleet Bench) (earlier : List (Moment × Message)) : List (String × Json) :=
  let engines := f.engines.toList.map Prod.snd
  [("calls", .ofNat f.world.sent.length),
    ("logs", .ofNat (earlier ++ engines.flatMap Engine.journal).length)]

end RpcFlow
