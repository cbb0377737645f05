import RpcFlow.Config.Setup
import RpcFlow.Json.Reader

/-!
# Trying out a configuration

`Demo.run` calls a configured method some number of times over a transport that answers by itself,
waits for the results in the order of the calls, and describes what happened line by line.
-/

set_option autoImplicit false

namespace RpcFlow

/-- What to try: a configuration, where it came from, a method of it and how to call it. -/
structure Demo where
  source : String
  config : Config
  method : String
  params : Json
  count : Nat

namespace Demo

/-- The title, and what is going to be done. -/
def heading (d : Demo) : List String :=
  ["🚀 RPC Task Flow Demo", "═════════════════════", "📋 Configuration: " ++ d.source,
    "🔧 Method: " ++ d.method ++ " (x" ++ toString d.count ++ ")",
    "📦 Max Batch Size: " ++ toString d.config.client.maxBatchSize,
    "⏱️  Batch Window: " ++ d.config.engine.window.render, ""]

/-- Submits the calls; the handles come out in the order of the calls. -/
def submitAll (d : Demo) : Nat → Session → Except String (List Handle × Session)
  | 0, s => .ok ([], s)
  | count + 1, s =>
    match s.describe d.method (.ok d.params) .any with
    | (.error e, _) => .error e.message
    | (.ok descriptor, s) =>
      match s.submit Session.mainEngine descriptor with
      | (.error e, _) => .error e.message
      | (.ok h, s) => do
        let (rest, s) ← submitAll d count s
        return (h :: rest, s)

/-- The line for a result. -/
def resultLine (number task : Nat) (result : Option (Except CallError Json)) : String :=
  "  " ++ toString number ++ ". task " ++ toString task ++
    match result with
    | some (.ok value) => " → " ++ value.render
    | some (.error e) => " ❌ " ++ e.message
    | none => " …"

/-- Waits for the results one after the other. -/
def awaitAll : List (Handle × Nat) → Session → List String × Session
  | [], s => ([], s)
  | (h, number) :: rest, s =>
    let task := ((s.task? h).map Task.id).getD 0
    let (result, s) := s.await h Session.patience
    let (lines, s) := awaitAll rest s
    (resultLine number task result :: lines, s)

/-- The line for each kind of count at the end. -/
def summary (s : Session) : List String :=
  let sizes := s.fleet.world.sent.reverse.map fun c => c.call.batchSize
  ["", "🔢 Wire Calls: " ++ toString sizes.length,
    "📊 Batch Sizes: " ++ Text.bracketed (sizes.map toString),
    "⏱️  Total Time: " ++ (Duration.ofMillis s.fleet.now).render]

/-- Makes the calls and describes them. -/
def run (d : Demo) : Except String (List String) := do
  let world := Bench.ofTransports [("main", .echo [] (.ofMillis 0))]
  let s ← (Session.ofConfig d.config world (.usual 0) "main").mapError ConfigError.message
  if (s.client.method? d.method).isNone then
    .error ("method '" ++ d.method ++ "' is not declared in " ++ d.source)
  else
    let (handles, s) ← d.submitAll d.count s
    let (lines, s) := awaitAll (handles.zipIdx 1) s
    return d.heading ++ lines ++ summary s

end Demo
end RpcFlow
