import RpcFlow.Engine.Verdict
import RpcFlow.ReplayLog
import RpcFlow.Request.Descriptor

/-!
# Tasks

A task is one request on its way through the stages.  It knows which stages hold it, every verdict
it was given, and the one verdict that was delivered to its callers.

* `Task.moveTo` takes a task out of a stage and into others; a task that no stage holds any more is
  finished, and its verdicts are closed.
* `Task.deliver` hands a verdict to the callers; only the first delivery counts.
* `Promise` is the right to give a task one verdict for one stay in a stage.
-/

set_option autoImplicit false

namespace RpcFlow

/-- One request under way. -/
structure Task where
  id : Nat
  started : Moment
  descriptor : Descriptor
  /-- The stages that hold the task, one entry for each stay. -/
  holding : List Stage
  results : ReplayLog Verdict
  delivered : ReplayLog Verdict

namespace Task

/-- A task that no stage holds yet. -/
def fresh (id : Nat) (now : Moment) (descriptor : Descriptor) : Task :=
  ⟨id, now, descriptor, [], .empty, .empty⟩

def method (t : Task) : String := t.descriptor.method

/-- Time since the task was created. -/
def elapsed (t : Task) (now : Moment) : Duration := .ofMillis (now - t.started)

def resultsCount (t : Task) : Nat := t.results.size

def isFinished (t : Task) : Bool := t.results.completed

def hasDelivered (t : Task) : Bool := !t.delivered.isEmpty

def lastSuccess? (t : Task) : Option Verdict := t.results.last? Verdict.isSuccess

def lastFailure? (t : Task) : Option Verdict := t.results.last? Verdict.isFailure

/-- Failures of the transport so far. -/
def networkFailures (t : Task) : Nat := t.results.items.countP Verdict.isNetworkFailure

/-- Adds a verdict to the results, unless they are closed. -/
def record (t : Task) (v : Verdict) : Task := { t with results := (t.results.push v).1 }

/-- Takes the task out of one stay in `source` and into the stages `next`; says whether it is
finished now. -/
def moveTo (t : Task) (source : Option Stage) (next : List Stage) : Task × Bool :=
  let left := match source with
    | some stage => t.holding.erase stage
    | none => t.holding
  let holding := left ++ next
  if holding.isEmpty then ({ t with holding, results := t.results.complete }, true)
  else ({ t with holding }, false)

/-- Delivers a verdict; says whether it was the first. -/
def deliver (t : Task) (v : Verdict) : Task × Bool :=
  let (delivered, first) := t.delivered.pushOnce v
  ({ t with delivered }, first)

/-- Closes the delivery. -/
def close (t : Task) : Task := { t with delivered := t.delivered.complete }

/-- What the callers of the task get, and when. -/
def outcome (t : Task) : Reading (Except CallError Json) :=
  match (t.delivered.read 0).1 with
  | .item v => .item v.result
  | .waiting => .waiting
  | .ended =>
    .item (.error (.interrupted
      ("task " ++ toString t.id ++ " finished without delivering a result")))

/-- May a request for this method and key join the task? -/
def mayJoin (t : Task) (method cacheKey : String) : Bool :=
  t.descriptor.bindable && !t.isFinished && t.descriptor.responds method (some cacheKey)

/-- The one with fewer verdicts, the first if they have equally many. -/
def fewer {α : Type} (best : Option (α × Task)) (x : α × Task) : Option (α × Task) :=
  match best with
  | some b => if x.2.resultsCount < b.2.resultsCount then some x else some b
  | none => some x

/-- Of the tasks that a request may join the one with the fewest verdicts, the earliest of
several. -/
def joinable? {α : Type} (tasks : List (α × Task)) (method cacheKey : String) :
    Option (α × Task) :=
  (tasks.filter fun x => x.2.mayJoin method cacheKey).foldl fewer none

/-- The task shown as a value. -/
def render (t : Task) : String :=
  Text.record "Task"
    [("id", toString t.id), ("method", Text.quoted t.method),
      ("holding", Text.bracketed (t.holding.map Stage.label)),
      ("results", toString t.resultsCount)]

end Task

/-- The right to give a task one verdict for one stay in a stage. -/
structure Promise where
  /-- Which promise of the engine this is. -/
  number : Nat
  /-- The place of the task among the tasks of the engine. -/
  task : Nat
  /-- The id of the task. -/
  taskId : Nat
  stage : Stage
  descriptor : Descriptor

/-- The verdict that a move of this promise amounts to. -/
def Promise.verdict (p : Promise) (m : Move) : Verdict := m.verdict p.descriptor.strategy p.stage

/-- The promise shown as a value. -/
def Promise.render (p : Promise) (completed : Bool) : String :=
  Text.record "Promise"
    [("task_id", toString p.taskId), ("stage", p.stage.label), ("completed", toString completed)]

end RpcFlow
