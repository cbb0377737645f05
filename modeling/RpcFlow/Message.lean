import RpcFlow.Json.Printer
import RpcFlow.Stage
import RpcFlow.Time

/-!
# Log messages

Everything the engine and the configuration check report, as values: the wording of a message, its
level and its fields are kept in one place.

* `Message.text` is the line for a reader, `Message.level` its level.
* `Message.event` is the structured event, and `Message.span` a span with the fields of the message
  that identify what it is about.
-/

set_option autoImplicit false

namespace RpcFlow

/-- How serious a message is. -/
inductive Level where
  | error
  | warn
  | info
  | debug
  deriving DecidableEq, Repr

/-- The name of a level. -/
def Level.name : Level → String
  | error => "ERROR"
  | warn => "WARN"
  | info => "INFO"
  | debug => "DEBUG"

/-- Why tasks have to wait for the next window. -/
inductive DeferReason where
  | executor
  | batchSize
  | headerConflict
  deriving DecidableEq, Repr

/-- The name of a reason. -/
def DeferReason.name : DeferReason → String
  | executor => "executor"
  | batchSize => "batch_size"
  | headerConflict => "header_conflict"

/-- What can be reported. -/
inductive Message where
  | taskCreated (task : Nat) (method strategy : String)
  | taskBound (task : Nat) (method : String) (resultsSoFar : Nat)
  | taskFinished (task : Nat) (method : String) (delivered : Bool) (elapsed : Duration)
  | stageHandlerFailed (stage : String) (tasks : Nat) (error : String)
  | stagePanicked (stage : String) (tasks : Nat) (panic : String)
  | stageMissing (stage : String) (task : Nat)
  | subscriptionLagged (method : String) (skipped : Nat)
  | engineStopped (liveTasks : Nat)
  | batchDispatched (methods : String) (size : Nat)
  | singleDispatched (task : Nat) (method : String)
  | tasksDeferred (reason : DeferReason) (count : Nat)
  | unknownResponseId (id : Nat)
  | batchEntryWithoutId (entry : Json)
  | cacheHit (method : String) (task : Nat)
  | cacheReadFailed (method error : String)
  | cacheWriteFailed (method error : String)
  | validationStarted (methods strategies : Nat)
  | validationProblem (problem : String)
  | validationCompleted (methods : Nat)
  | validationFailed (errors : Nat)
  | deliveryDropped (task : Nat)
  | verdictDropped (task : Nat) (stage : Stage)
  | networkRetried (task attempt : Nat)
  deriving DecidableEq, Repr

namespace Message

/-- A name between single quotes. -/
def named (s : String) : String := "'" ++ s ++ "'"

/-- The line for a reader. -/
def text : Message → String
  | taskCreated task method strategy =>
    "Task " ++ toString task ++ " created for " ++ named method ++ " with strategy " ++ strategy
  | taskBound task method results =>
    "Bound request " ++ named method ++ " to in-flight task " ++ toString task ++ " (" ++
      toString results ++ " verdicts so far)"
  | taskFinished task method delivered elapsed =>
    "Task " ++ toString task ++ " for " ++ named method ++ " finished in " ++ elapsed.render ++
      (if delivered then "" else " without delivering a result")
  | stageHandlerFailed stage tasks error =>
    "Stage " ++ stage ++ " handler failed for " ++ toString tasks ++ " tasks: " ++ error
  | stagePanicked stage tasks panic =>
    "Stage " ++ stage ++ " panicked while handling " ++ toString tasks ++ " tasks: " ++ panic
  | stageMissing stage task =>
    "No block registered for stage " ++ stage ++ ", task " ++ toString task ++ " interrupted"
  | subscriptionLagged method skipped =>
    "Subscriber of " ++ named method ++ " lagged behind the result bus, " ++ toString skipped ++
      " results skipped"
  | engineStopped live => "Engine stopped with " ++ toString live ++ " live tasks"
  | batchDispatched methods size =>
    "Dispatching batch of " ++ toString size ++ " requests: " ++ methods
  | singleDispatched task method =>
    "Dispatching " ++ named method ++ " for task " ++ toString task
  | tasksDeferred reason count =>
    "Deferring " ++ toString count ++ " tasks to the next window (" ++ reason.name ++ ")"
  | unknownResponseId id => "Batch response carries unknown request id " ++ toString id
  | batchEntryWithoutId entry => "Batch response entry carries no id: " ++ entry.render
  | cacheHit method task => "Cache hit for " ++ named method ++ " (task " ++ toString task ++ ")"
  | cacheReadFailed method error => "Ignoring cached entry for " ++ named method ++ ": " ++ error
  | cacheWriteFailed method error =>
    "Could not cache result of " ++ named method ++ ": " ++ error
  | validationStarted methods strategies =>
    "Starting configuration validation for " ++ toString methods ++ " methods and " ++
      toString strategies ++ " custom strategies"
  | validationProblem problem => "Configuration problem: " ++ problem
  | validationCompleted methods =>
    "Configuration validation completed successfully for " ++ toString methods ++ " methods"
  | validationFailed errors =>
    "Configuration validation failed with " ++ toString errors ++ " errors"
  | deliveryDropped _ => "Task already delivered; dropping verdict"
  | verdictDropped _ _ => "Engine worker is gone, verdict dropped"
  | networkRetried _ _ => "Retrying network call after I/O failure"

/-- The level of a message. -/
def level : Message → Level
  | taskCreated .. | taskBound .. | taskFinished .. | singleDispatched .. | tasksDeferred ..
  | cacheHit .. | deliveryDropped .. | verdictDropped .. | networkRetried .. => .debug
  | engineStopped .. | batchDispatched .. | validationStarted .. | validationCompleted .. => .info
  | stageHandlerFailed .. | subscriptionLagged .. | unknownResponseId .. | batchEntryWithoutId ..
  | cacheReadFailed .. | cacheWriteFailed .. => .warn
  | stagePanicked .. | stageMissing .. | validationProblem .. | validationFailed .. => .error

/-- The part of the library a message comes from. -/
def target : Message → String
  | taskCreated .. | taskBound .. | taskFinished .. | stageHandlerFailed .. | stagePanicked ..
  | stageMissing .. | subscriptionLagged .. | engineStopped .. =>
    "rpc_taskflow::observability::messages::engine"
  | batchDispatched .. | singleDispatched .. | tasksDeferred .. | unknownResponseId ..
  | batchEntryWithoutId .. => "rpc_taskflow::observability::messages::network"
  | cacheHit .. | cacheReadFailed .. | cacheWriteFailed .. =>
    "rpc_taskflow::observability::messages::cache"
  | validationStarted .. | validationProblem .. | validationCompleted .. | validationFailed .. =>
    "rpc_taskflow::observability::messages::validation"
  | deliveryDropped .. | verdictDropped .. => "rpc_taskflow::engine::task"
  | networkRetried .. => "rpc_taskflow::blocks::resolve_error"

/-- The fields of the event, apart from its text. -/
def fields : Message → List (String × String)
  | taskCreated task method strategy =>
    [("task_id", toString task), ("method", method), ("strategy", strategy)]
  | taskBound task method results =>
    [("task_id", toString task), ("method", method), ("results_so_far", toString results)]
  | taskFinished task method delivered elapsed =>
    [("task_id", toString task), ("method", method), ("delivered", toString delivered),
      ("elapsed_ms", toString (elapsed.wholeMillis % wordCount 64))]
  | stageHandlerFailed stage tasks error =>
    [("stage", stage), ("task_count", toString tasks), ("error", error)]
  | stagePanicked stage tasks panic =>
    [("stage", stage), ("task_count", toString tasks), ("panic", panic)]
  | stageMissing stage task => [("stage", stage), ("task_id", toString task)]
  | subscriptionLagged method skipped => [("method", method), ("skipped", toString skipped)]
  | engineStopped live => [("live_tasks", toString live)]
  | batchDispatched methods size => [("methods", methods), ("size", toString size)]
  | singleDispatched task method => [("task_id", toString task), ("method", method)]
  | tasksDeferred reason count => [("reason", reason.name), ("count", toString count)]
  | unknownResponseId id => [("id", toString id)]
  | batchEntryWithoutId entry => [("entry", entry.render)]
  | cacheHit method task => [("method", method), ("task_id", toString task)]
  | cacheReadFailed method error => [("method", method), ("error", error)]
  | cacheWriteFailed method error => [("method", method), ("error", error)]
  | validationStarted methods strategies =>
    [("method_count", toString methods), ("strategy_count", toString strategies)]
  | validationProblem problem => [("problem", problem)]
  | validationCompleted methods => [("method_count", toString methods)]
  | validationFailed errors => [("error_count", toString errors)]
  | deliveryDropped task => [("task_id", toString task)]
  | verdictDropped task stage => [("task_id", toString task), ("stage", stage.name)]
  | networkRetried task attempt =>
    [("task_id", toString task), ("attempt", toString attempt)]

/-- The name of the span of a message. -/
def spanName : Message → String
  | taskCreated .. => "task"
  | taskBound .. => "task_bound"
  | taskFinished .. => "task_finished"
  | stageHandlerFailed .. => "stage_failed"
  | stagePanicked .. => "stage_panicked"
  | stageMissing .. => "stage_missing"
  | subscriptionLagged .. => "subscription_lagged"
  | engineStopped .. => "engine_stopped"
  | batchDispatched .. => "batch"
  | singleDispatched .. => "single"
  | tasksDeferred .. => "deferred"
  | unknownResponseId .. => "unknown_response_id"
  | batchEntryWithoutId .. => "batch_entry_without_id"
  | cacheHit .. => "cache_hit"
  | cacheReadFailed .. => "cache_read_failed"
  | cacheWriteFailed .. => "cache_write_failed"
  | _ => "span_name"

/-- The fields of the span of a message, apart from the name it is given. -/
def spanFields (m : Message) : List (String × String) :=
  match m with
  | taskFinished task method _ elapsed =>
    [("task_id", toString task), ("method", method), ("elapsed", elapsed.render)]
  | taskBound .. | stageHandlerFailed .. | stagePanicked .. => m.fields.take 2
  | cacheReadFailed .. | cacheWriteFailed .. => m.fields.take 1
  | validationProblem .. => []
  | _ => m.fields

/-- The field that holds the name given to the span of a message. -/
def spanNameField (m : Message) : String :=
  if m.spanName = "span_name" then "name" else "span_name"

/-- A structured event or span. -/
structure Record where
  isSpan : Bool
  name : String
  level : Level
  target : String
  fields : List (String × String)
  deriving DecidableEq, Repr

/-- The structured event of a message. -/
def event (m : Message) : Record :=
  ⟨false, "", m.level, m.target, m.fields ++ [("message", m.text)]⟩

/-- A span with the name `given` and the fields of a message. -/
def span (m : Message) (given : String) : Record :=
  ⟨true, m.spanName, m.level, m.target, (m.spanNameField, given) :: m.spanFields⟩

end Message
end RpcFlow
