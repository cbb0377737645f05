import RpcFlow.Codec
import RpcFlow.Engine.Batch
import RpcFlow.Engine.Routine

/-!
# The built-in stages

What each of the eight stages does with a task unless another block is put in its place.

* The first stage and the check of the authorization let every task through.
* The cache stages never fail a task: what cannot be read counts as absent, and what cannot be
  written is only reported.
* The network stage collects tasks for a window, sends what fits on one call and sends the rest
  back to itself, see `RpcFlow.Engine.Batch`.
* The delivery stages deliver the last success and the last failure; the stage between them repeats
  a failed call a limited number of times.
-/

set_option autoImplicit false

namespace RpcFlow
namespace Stages

/-- Uses a promise and goes on. -/
def settle (p : Promise) (m : Move) (k : Routine) : Routine := .complete p m fun _ => k

/-! ## Cache -/

/-- Looks the task's key up; a text that cannot be read as a result counts as absent. -/
def readCache : Block :=
  .immediate fun p =>
    let d := p.descriptor
    let miss : Routine := settle p (.follow false) (.finish .ok)
    let unusable (error : CallError) : Routine :=
      .report (.cacheReadFailed d.method error.message) miss
    .readCache d.cacheKey fun
      | .crashed message => .finish (.crashed message)
      | .failed error => unusable error
      | .done none => miss
      | .done (some raw) =>
        .decode (some raw) d.resultType fun
          | .crashed message => .finish (.crashed message)
          | .failed error => unusable error
          | .done payload =>
            .report (.cacheHit d.method p.taskId)
              (settle p (.succeed payload (some raw)) (.finish .ok))

/-- The text of the last success of a task, if it has one. -/
def cachedText? (t : Task) : Option String :=
  match t.lastSuccess? with
  | some (.success _ raw _) => raw
  | _ => none

/-- Stores the text of the last success under the task's key. -/
def writeCache : Block :=
  .immediate fun p =>
    let d := p.descriptor
    let leave : Routine := settle p (.follow true) (.finish .ok)
    .look p fun view =>
      match cachedText? view.task with
      | none => leave
      | some raw =>
        .writeCache d.cacheKey raw d.expiresAfter fun
          | .done _ => leave
          | .failed error => .report (.cacheWriteFailed d.method error.message) leave
          | .crashed message => .finish (.crashed message)

/-! ## Delivery -/

/-- Delivers the last success. -/
def deliverResult : Block :=
  .immediate fun p =>
    .look p fun view =>
      match view.task.lastSuccess? with
      | none => .finish (.failed (.interrupted "no successful result to deliver"))
      | some v => .deliver p v fun _ => settle p (.follow true) (.finish .ok)

/-- What is delivered for a task that failed: its last failure. -/
def failureOf (t : Task) : Verdict :=
  t.lastFailure?.getD (.failure (.interrupted "flow ended without a result") [])

/-- Delivers the last failure. -/
def deliverError : Block :=
  .immediate fun p =>
    .look p fun view =>
      .deliver p (failureOf view.task) fun _ => settle p (.follow true) (.finish .ok)

/-- May the call of a task be repeated?  Its strategy has to allow it, its last failure has to be
one of the transport, and the budget must not be used up. -/
def mayRetry (retries : Nat) (view : TaskView) : Bool :=
  view.flags.isOn retryFlag && view.task.lastFailure?.any Verdict.isNetworkFailure &&
    view.task.networkFailures ≤ retries

/-- Repeats the call of a task or gives it up. -/
def resolveError (retries : Nat) : Block :=
  .immediate fun p =>
    .look p fun view =>
      if mayRetry retries view then
        .report (.networkRetried p.taskId view.task.networkFailures)
          (settle p (.goTo [.getFromNet]) (.finish .ok))
      else settle p (.goTo [.deliverError]) (.finish .ok)

/-! ## Network -/

/-- A declared error as it is recorded: read as JSON if it can be. -/
def declaredError (text : String) : CallError :=
  .declared ((Codec.parse text).toOption.getD (.str text))

/-- Unwraps the answer to one request, reads and checks the result, and uses the promise. -/
def settleWith (p : Promise) (answer : Json) (k : Routine) : Routine :=
  let fail (error : CallError) : Routine := settle p (.fail error) k
  match p.descriptor.envelope.unwrap answer with
  | .error (.declared text) => fail (declaredError text)
  | .error (.malformed reason) => fail (.conversion reason)
  | .ok raw =>
    .decode raw p.descriptor.resultType fun
      | .crashed message => .finish (.crashed message)
      | .failed error => fail error
      | .done payload =>
        .validate payload fun
          | .crashed message => .finish (.crashed message)
          | .failed error => fail error
          | .done _ => settle p (.succeed payload raw) k

/-- Sends one task on a call of its own. -/
def sendAlone (p : Promise) (k : Routine) : Routine :=
  let d := p.descriptor
  .report (.singleDispatched p.taskId d.method) <|
    .fetch d.transport (Batch.singleCall p) fun
      | .crashed message => .finish (.crashed message)
      | .failed error => settle p (.fail error.toCallError) k
      | .answered response =>
        .announce d.method response.headers <|
          .decode (some response.body) .any fun
            | .crashed message => .finish (.crashed message)
            | .failed error => settle p (.fail error) k
            | .done answer => settleWith p answer k

/-- Sends tasks one after the other, each on a call of its own. -/
def sendEachAlone : List Promise → Routine
  | [] => .finish .ok
  | p :: rest => sendAlone p (sendEachAlone rest)

/-- Fails every promise with one error. -/
def failAll (error : CallError) : List Promise → Routine
  | [] => .finish .ok
  | p :: rest => settle p (.fail error) (failAll error rest)

/-- Hands the headers of an answer to the listeners of every task's method. -/
def announceAll (headers : Dict String) (k : Routine) : List Promise → Routine
  | [] => k
  | p :: rest => .announce p.descriptor.method headers (announceAll headers k rest)

/-- Reports messages in order. -/
def reportAll (k : Routine) : List Message → Routine
  | [] => k
  | m :: rest => .report m (reportAll k rest)

/-- Uses every promise with the entry of its request; entries that no request asked for are
reported at the end. -/
def settleEach (entries : Batch.Entries) : List Promise → Routine
  | [] => reportAll (.finish .ok) (entries.map fun e => .unknownResponseId e.1)
  | p :: rest =>
    match Batch.takeEntry entries p.descriptor.request.id with
    | (some answer, left) => settleWith p answer (settleEach left rest)
    | (none, left) =>
      settle p (.fail (.conversion "responses ids not comparable with requests ids"))
        (settleEach left rest)

/-- Uses every promise with the answer to a combined call. -/
def settleAll (promises : List Promise) : Json → Routine
  | .arr answer =>
    reportAll (settleEach (Batch.entriesById answer) promises)
      ((Batch.strays answer).map .batchEntryWithoutId)
  | other => failAll (.conversion ("batch response is not an array: " ++ other.render)) promises

/-- Sends several tasks on one call, on the transport of the first. -/
def sendTogether (promises : List Promise) (headers : Dict String) : Routine :=
  match promises with
  | [] => .finish (.crashed "index out of bounds: the len is 0 but the index is 0")
  | first :: _ =>
    .report (.batchDispatched (Batch.methods promises) promises.length) <|
      .fetch first.descriptor.transport (Batch.combinedCall promises headers) fun
        | .crashed message => .finish (.crashed message)
        | .failed error => failAll error.toCallError promises
        | .answered response =>
          announceAll response.headers
            (.decode (some response.body) .vecValue fun
              | .crashed message => .finish (.crashed message)
              | .failed error => failAll error promises
              | .done answer => settleAll promises answer)
            promises

/-- Sends promises back to the network stage. -/
def sendBack (k : Routine) : List Promise → Routine
  | [] => k
  | p :: rest => settle p (.goTo [.getFromNet]) (sendBack k rest)

/-- Puts tasks off until the next window and says why. -/
def putOff (reason : DeferReason) (promises : List Promise) (k : Routine) : Routine :=
  if promises.isEmpty then k
  else .report (.tasksDeferred reason promises.length) (sendBack k promises)

/-- Goes on with several tasks, or sends the only one alone. -/
def unlessAlone (promises : List Promise) (k : Routine) : Routine :=
  match promises with
  | [p] => sendAlone p (.finish .ok)
  | _ => k

/-- Sends what a window holds: what belongs together on one call, the rest back. -/
def sendWindow (promises : List Promise) : Routine :=
  unlessAlone promises <|
    let (group, otherTransports) := Batch.splitByTransport promises
    putOff .executor otherTransports <|
      unlessAlone group <|
        let (batch, oversized) := Batch.fitSize group
        putOff .batchSize oversized <|
          unlessAlone batch <|
            let merged := Batch.mergeHeaders batch
            putOff .headerConflict merged.conflicting <|
              unlessAlone merged.kept (sendTogether merged.kept merged.headers)

/-- The network stage with its window. -/
def network (window : Duration) : Block where
  window := some window
  onTask := fun p => sendAlone p (.finish .ok)
  onWindow := sendWindow

/-! ## All stages -/

/-- The window of a stage that sets none. -/
def usualWindow : Duration := .ofMillis 100

/-- The number of repeated calls of a task unless another is set. -/
def usualRetries : Nat := 1

/-- The built-in block of a stage. -/
def block (window : Duration) (retries : Nat) : Stage → Block
  | .initial | .checkAuthToken => .passing
  | .getFromCache => readCache
  | .getFromNet => network window
  | .saveToCache => writeCache
  | .deliverResult => deliverResult
  | .deliverError => deliverError
  | .resolveError => resolveError retries

end Stages
end RpcFlow
