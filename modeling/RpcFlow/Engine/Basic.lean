import RpcFlow.Engine.Routine
import RpcFlow.HeaderBoard

/-!
# The state of an engine

An engine is a set of actors that take turns: one worker, which admits requests and moves tasks from
stage to stage; a loop for each stage, which takes tasks from the stage's queue and starts handlers;
the handlers, which run routines; a supervisor for each handler, which cleans up after it; and the
subscribers, which read the results that are delivered.

* `Engine` is everything an engine keeps.  Actors to be given a turn are collected in `woken`, and
  turns to be given later in `alarms`; handing them out is the business of
  `RpcFlow.Engine.Fleet`.
* `Environment` is the outside world that routines ask.
* The functions here are the single changes that turns are made of: waking an actor, reporting a
  message, using a promise, delivering a verdict.
-/

set_option autoImplicit false

namespace RpcFlow

/-- The outside world: a transport, a cache, a reader of results and a validator, all of which may
keep a state of type `σ`.  The handler that asks crashes with a call that does; for its tasks it is the
same if a listener of headers, a conversion or a writer of results crashes on the way. -/
structure Environment (σ : Type) where
  /-- How a transport reacts to a call now: after what time, and with what. -/
  fetch : Moment → String → WireCall → σ → Duration × WireOutcome × σ
  readCache : Moment → String → σ → Outcome (Option String) × σ
  writeCache : Moment → String → String → Duration → σ → Outcome Unit × σ
  decode : Option String → ResultType → σ → Outcome Json × σ
  validate : Json → σ → Outcome Unit × σ

/-- A work item of the worker. -/
inductive Command where
  /-- A request to be given a task; `reply` is where the task is answered. -/
  | submit (descriptor : Descriptor) (reply : Nat)
  /-- A promise was used: the task leaves `source` and goes on as the verdict says. -/
  | transition (task : Nat) (source : Stage) (verdict : Verdict)

/-- What became of a request: still waiting, given to a task, or turned away. -/
inductive Reply where
  | waiting
  | task (index : Nat)
  | refused
  deriving DecidableEq, Repr, Inhabited

/-- The tasks a stage has collected in its window, and when the window ends. -/
structure OpenWindow where
  members : List Nat
  deadline : Moment
  deriving DecidableEq, Repr

/-- The loop of a stage: its queue and, in a stage with a window, what it has collected. -/
structure Loop where
  queue : List Nat
  gathering : Option OpenWindow
  deriving DecidableEq, Repr, Inhabited

/-- What a handler is about to do. -/
inductive HandlerState where
  | running (r : Routine)
  | ended (ending : Ending)

/-- A handler: the promises it was given and what it is about to do; and whether its supervisor has
begun to wait for it. -/
structure Handler where
  stage : Stage
  promises : List Promise
  state : HandlerState
  watched : Bool

/-- A delivered verdict, as subscribers hear of it. -/
structure Event where
  taskId : Nat
  method : String
  cacheKey : String
  verdict : Verdict

/-- A reader of the delivered verdicts of a method. -/
structure Subscriber where
  method : String
  /-- Does it stop after the first result? -/
  once : Bool
  /-- How many events it has passed. -/
  position : Nat
  cancelled : Bool
  heard : List (Moment × Except CallError Json)

/-- Who may be given a turn. -/
inductive Actor where
  | worker
  | loop (stage : Stage)
  | handler (index : Nat)
  | supervisor (index : Nat)
  | subscriber (index : Nat)
  deriving DecidableEq, Repr

/-- A task that has finished, as the time tracker is told. -/
structure Finish where
  moment : Moment
  strategy : String
  method : String
  elapsed : Duration
  deriving DecidableEq, Repr

/-- A party that is told of every task that finishes.  A call of it may crash; whether it does is up to
what it is told, and to what it was told before, the latest first. -/
structure TimeTracker where
  crashes : Finish → List Finish → Bool

/-- A time tracker whose calls return. -/
def TimeTracker.steady : TimeTracker := ⟨fun _ _ => false⟩

/-- The place of a stage in tables with one entry a stage. -/
def Stage.slot (s : Stage) : Fin 8 := ⟨s.index, by cases s <;> decide⟩

/-- A table with one entry a stage. -/
abbrev PerStage (α : Type) := Vector α 8

/-- The state of an engine. -/
structure Engine (σ : Type) where
  blocks : Stage → Block
  now : Moment
  /-- The id of the next task. -/
  nextTask : Nat
  world : σ
  tasks : Array Task
  /-- The unfinished tasks, in the order they were created. -/
  registry : List Nat
  /-- Which promises have been used. -/
  used : Array Bool
  inbox : List Command
  replies : Array Reply
  loops : PerStage Loop
  handlers : Array Handler
  events : Array Event
  subscribers : Array Subscriber
  board : HeaderBoard
  heard : List HeaderCall
  /-- The flags of strategies that were changed. -/
  flags : List (Nat × Flags)
  /-- How often each stage has asked for its count. -/
  counts : PerStage Nat
  /-- Has the engine been told to stop? -/
  cancelled : Bool
  /-- Has the worker stopped? -/
  stopped : Bool
  woken : List Actor
  alarms : List (Moment × Actor)
  /-- Reports, notes and finished tasks so far, the latest first. -/
  journal : List (Moment × Message)
  notes : List (Moment × Promise × Note)
  finishes : List Finish

namespace Engine

variable {σ : Type}

/-- An engine that has not done anything. -/
def start (blocks : Stage → Block) (world : σ) : Engine σ where
  blocks
  now := 0
  nextTask := 1
  world
  tasks := #[]
  registry := []
  used := #[]
  inbox := []
  replies := #[]
  loops := .replicate 8 ⟨[], none⟩
  handlers := #[]
  events := #[]
  subscribers := #[]
  board := .empty
  heard := []
  flags := []
  counts := .replicate 8 0
  cancelled := false
  stopped := false
  woken := []
  alarms := []
  journal := []
  notes := []
  finishes := []

/-- The number of unfinished tasks. -/
def live (e : Engine σ) : Nat := e.registry.length

/-- Asks for a turn. -/
def wake (e : Engine σ) (a : Actor) : Engine σ := { e with woken := e.woken ++ [a] }

/-- Asks for a turn later. -/
def wakeAt (e : Engine σ) (moment : Moment) (a : Actor) : Engine σ :=
  { e with alarms := e.alarms ++ [(moment, a)] }

/-- Reports a message. -/
def report (e : Engine σ) (m : Message) : Engine σ := { e with journal := (e.now, m) :: e.journal }

/-- Changes a task. -/
def updateTask (e : Engine σ) (index : Nat) (f : Task → Task) : Engine σ :=
  { e with tasks := e.tasks.modify index f }

/-- The loop of a stage. -/
def loop (e : Engine σ) (stage : Stage) : Loop := e.loops[stage.slot]

/-- Changes the loop of a stage. -/
def setLoop (e : Engine σ) (stage : Stage) (l : Loop) : Engine σ :=
  { e with loops := e.loops.set stage.slot l }

/-- Counts a question of a stage; answers how often it was asked before. -/
def tally (e : Engine σ) (stage : Stage) : Nat × Engine σ :=
  let n := e.counts[stage.slot]
  (n, { e with counts := e.counts.set stage.slot (n + 1) })

/-- Gives the worker something to do. -/
def send (e : Engine σ) (c : Command) : Engine σ :=
  { e with inbox := e.inbox ++ [c] }.wake .worker

/-- The flags of a strategy as they are now. -/
def flagsOf (e : Engine σ) (s : Strategy) : Flags := (e.flags.lookup s.cell).getD s.flags

/-- Changes a flag of a strategy. -/
def setFlag (e : Engine σ) (s : Strategy) (key : String) (value : Option String) : Engine σ :=
  { e with
    flags :=
      (s.cell, (e.flagsOf s).set key value) :: e.flags.filter fun entry => entry.1 != s.cell }

/-- Is a promise still open? -/
def isOpen (e : Engine σ) (p : Promise) : Bool := !(e.used[p.number]?.getD true)

/-- What a routine sees of the task of a promise. -/
def view? (e : Engine σ) (p : Promise) : Option TaskView :=
  e.tasks[p.task]?.map fun task => ⟨task, e.flagsOf p.descriptor.strategy, !e.isOpen p⟩

/-- A fresh promise for a task in a stage. -/
def promise? (e : Engine σ) (stage : Stage) (index : Nat) : Option Promise :=
  e.tasks[index]?.map fun task => ⟨e.used.size, index, task.id, stage, task.descriptor⟩

/-- Uses a promise: the verdict is recorded and the worker is told.  A promise that has been used
changes nothing. -/
def complete (e : Engine σ) (p : Promise) (m : Move) : Bool × Engine σ :=
  if e.isOpen p then
    let verdict := p.verdict m
    let e := { e with used := e.used.setIfInBounds p.number true }
    let e := e.updateTask p.task fun t => t.record verdict
    (true,
      if e.stopped then e.report (.verdictDropped p.taskId p.stage)
      else e.send (.transition p.task p.stage verdict))
  else (false, e)

/-- Wakes every subscriber that has not ended. -/
def wakeSubscribers (e : Engine σ) : Engine σ :=
  (List.range e.subscribers.size).foldl (fun e i => e.wake (.subscriber i)) e

/-- Delivers a verdict to the callers of a task; the first one becomes an event. -/
def deliver (e : Engine σ) (index : Nat) (v : Verdict) : Bool × Engine σ :=
  match e.tasks[index]? with
  | none => (false, e)
  | some task =>
    let (after, first) := task.deliver v
    if first then
      let e := e.updateTask index fun _ => after
      let event : Event := ⟨task.id, task.method, task.descriptor.cacheKey, v⟩
      (true, { e with events := e.events.push event }.wakeSubscribers)
    else (false, e.report (.deliveryDropped task.id))

/-- Hands the headers of a response to the listeners of a method. -/
def announce (e : Engine σ) (method : String) (headers : Dict String) : Engine σ :=
  let (board, heard) :=
    e.board.propagate method headers (fun c s => (s.1, s.2 ++ [c])) e.heard
  { e with board, heard }

/-- The outcome of a task for its callers. -/
def outcome (e : Engine σ) (index : Nat) : Reading (Except CallError Json) :=
  match e.tasks[index]? with
  | some task => task.outcome
  | none => .waiting

end Engine
end RpcFlow
