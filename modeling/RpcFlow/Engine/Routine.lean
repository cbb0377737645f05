import RpcFlow.Engine.Task
import RpcFlow.Message
import RpcFlow.Wire.Basic

/-!
# Routines

What a stage does with its tasks is written as a routine: a sequence of steps, each of which may
look at what the earlier ones brought.  A routine acts on tasks through their promises only and
reaches the outside world through a few questions, so everything a stage can do is listed here.

* `Routine` is such a sequence, `Ending` how it ends.
* `Block` says how a stage takes tasks, one by one or a window at a time, and what it does then.
* `Routine.andThen` runs a second routine after the end of a first.
* `Block.inTurn` handles the tasks of a window one after the other.
-/

set_option autoImplicit false

namespace RpcFlow

/-- How a routine ends: as it should, with an error, or by crashing. -/
inductive Ending where
  | ok
  | failed (error : CallError)
  | crashed (message : String)
  deriving DecidableEq, Repr

/-- What comes back from a question to the outside world. -/
inductive Outcome (α : Type) where
  | done (value : α)
  | failed (error : CallError)
  | crashed (message : String)
  deriving DecidableEq, Repr

/-- The outcome of a question that cannot crash. -/
def Outcome.ofExcept {α : Type} : Except CallError α → Outcome α
  | .ok value => done value
  | .error error => failed error

/-- What a routine sees of a task. -/
structure TaskView where
  task : Task
  /-- The flags of its strategy as they are now. -/
  flags : Flags
  /-- Has the promise been used up? -/
  completed : Bool

/-- Something a routine notes down about itself. -/
inductive Note where
  /-- It did something, which was answered with yes or no. -/
  | did (what : String) (answer : Bool)
  /-- It had a look at its task. -/
  | saw (promise : Promise) (view : TaskView)
  /-- It is about to end. -/
  | said (what : String)

/-- A sequence of steps. -/
inductive Routine where
  | finish (ending : Ending)
  /-- Looks at the task of a promise. -/
  | look (p : Promise) (k : TaskView → Routine)
  /-- Uses a promise; answers whether it was still open. -/
  | complete (p : Promise) (m : Move) (k : Bool → Routine)
  /-- Delivers a verdict to the callers; answers whether it was the first. -/
  | deliver (p : Promise) (v : Verdict) (k : Bool → Routine)
  /-- Sends a call through a transport. -/
  | fetch (transport : String) (call : WireCall) (k : WireOutcome → Routine)
  | readCache (key : String) (k : Outcome (Option String) → Routine)
  | writeCache (key value : String) (lifetime : Duration) (k : Outcome Unit → Routine)
  /-- Reads a body as a value of a declared type. -/
  | decode (body : Option String) (type : ResultType) (k : Outcome Json → Routine)
  | validate (value : Json) (k : Outcome Unit → Routine)
  /-- Hands the headers of a response to the listeners of a method. -/
  | announce (method : String) (headers : Dict String) (k : Routine)
  | report (m : Message) (k : Routine)
  /-- Changes a flag of the strategy of a promise's task. -/
  | setFlag (p : Promise) (key : String) (value : Option String) (k : Routine)
  | sleep (d : Duration) (k : Routine)
  /-- Asks how often this was asked in the stage before. -/
  | count (stage : Stage) (k : Nat → Routine)
  | note (p : Promise) (n : Note) (k : Routine)

namespace Routine

/-- Runs `after` with the ending of a first routine. -/
def andThen (after : Ending → Routine) : Routine → Routine
  | finish ending => after ending
  | look p k => look p fun x => andThen after (k x)
  | complete p m k => complete p m fun x => andThen after (k x)
  | deliver p v k => deliver p v fun x => andThen after (k x)
  | fetch transport call k => fetch transport call fun x => andThen after (k x)
  | readCache key k => readCache key fun x => andThen after (k x)
  | writeCache key value lifetime k => writeCache key value lifetime fun x => andThen after (k x)
  | decode body type k => decode body type fun x => andThen after (k x)
  | validate value k => validate value fun x => andThen after (k x)
  | announce method headers k => announce method headers (andThen after k)
  | report m k => report m (andThen after k)
  | setFlag p key value k => setFlag p key value (andThen after k)
  | sleep d k => sleep d (andThen after k)
  | count stage k => count stage fun x => andThen after (k x)
  | note p n k => note p n (andThen after k)

end Routine

/-- How a stage takes tasks and what it does with them. -/
structure Block where
  /-- How long tasks are collected before they are handled together; a stage without a window
  handles each at once. -/
  window : Option Duration
  onTask : Promise → Routine
  onWindow : List Promise → Routine

namespace Block

/-- One task after the other.  An error of one task becomes its failure; a crash ends it all. -/
def inTurn (onTask : Promise → Routine) : List Promise → Routine
  | [] => .finish .ok
  | p :: rest =>
    (onTask p).andThen fun
      | .ok => inTurn onTask rest
      | .failed error => .complete p (.fail error) fun _ => inTurn onTask rest
      | .crashed message => .finish (.crashed message)

/-- A block that handles each task at once. -/
def immediate (onTask : Promise → Routine) : Block := ⟨none, onTask, inTurn onTask⟩

/-- A block that lets every task through on the way of success. -/
def passing : Block :=
  immediate fun p => .complete p (.follow true) fun _ => .finish .ok

end Block
end RpcFlow
