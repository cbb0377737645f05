import RpcFlow.Engine.Basic

/-!
# Turns

What each actor of an engine does when it is given a turn.  An actor works off what has come in, but
no more than a fixed number of items; then it asks for another turn, behind everyone waiting.

* The worker takes requests in and moves tasks (`Engine.accept`, `Engine.place`).
* The loop of a stage starts handlers, for each task or for all tasks of a window that has ended.
* A handler runs its routine until it has to wait (`Engine.perform`).
* A supervisor fails what a handler left open when it ended with an error or crashed.
* A subscriber reads the events of its method; one that falls behind by more than the bus holds
  goes on with the oldest event that is left.
-/

set_option autoImplicit false

namespace RpcFlow

/-- The number of items an actor works off in one turn. -/
def turnBudget : Nat := 128

/-- The number of events that are kept for slow readers. -/
def busCapacity : Nat := 1024

namespace Engine

variable {σ : Type}

/-! ## The worker -/

/-- The unfinished tasks with their places. -/
def unfinished (e : Engine σ) : List (Nat × Task) :=
  e.registry.filterMap fun index => e.tasks[index]?.map fun t => (index, t)

/-- Puts a task into the queue of a stage. -/
def enqueue (e : Engine σ) (index : Nat) (stage : Stage) : Engine σ :=
  let l := e.loop stage
  (e.setLoop stage { l with queue := l.queue ++ [index] }).wake (.loop stage)

/-- Turns a request away. -/
def refuse (e : Engine σ) : Command → Engine σ
  | .submit _ reply => { e with replies := e.replies.setIfInBounds reply .refused }
  | .transition .. => e

/-- The worker is lost to a crash: requests that wait are turned away, and nothing is closed. -/
def loseWorker (e : Engine σ) : Engine σ :=
  let e := e.inbox.foldl refuse e
  { e with inbox := [], stopped := true }

/-- Takes a finished task out of the registry, closes its delivery and tells the time tracker.  The
worker makes this call itself, so a call that crashes is its end. -/
def retire (tracker : TimeTracker) (e : Engine σ) (index : Nat) : Engine σ :=
  match e.tasks[index]? with
  | none => e
  | some t =>
    let elapsed := t.elapsed e.now
    let e := { e with registry := e.registry.erase index }.updateTask index Task.close
    let finish : Finish := ⟨e.now, t.descriptor.strategy.label, t.method, elapsed⟩
    let told := { e with finishes := finish :: e.finishes }
    if tracker.crashes finish e.finishes then told.loseWorker
    else told.report (.taskFinished t.id t.method t.hasDelivered elapsed)

/-- Moves a task out of a stage and into others; a task that no stage holds then is retired. -/
def placeUnder (tracker : TimeTracker) (e : Engine σ) (index : Nat) (source : Option Stage)
    (next : List Stage) : Engine σ :=
  match e.tasks[index]? with
  | none => e
  | some t =>
    let (moved, finished) := t.moveTo source next
    let e := e.updateTask index fun _ => moved
    let e := next.foldl (fun e stage => e.enqueue index stage) e
    if finished then e.retire tracker index else e

/-- Moves a task, under a time tracker that returns. -/
def place (e : Engine σ) (index : Nat) (source : Option Stage) (next : List Stage) : Engine σ :=
  e.placeUnder .steady index source next

/-- Creates the task of a request and puts it into the first stage. -/
def create (e : Engine σ) (d : Descriptor) : Nat × Engine σ :=
  let index := e.tasks.size
  let t := Task.fresh e.nextTask e.now d
  let e := { e with
    tasks := e.tasks.push t
    nextTask := e.nextTask + 1
    registry := e.registry ++ [index] }
  let e := e.report (.taskCreated t.id t.method d.strategy.label)
  (index, e.place index none [.initial])

/-- Takes a request in: it joins an unfinished task if it may and there is one, or gets its own. -/
def accept (e : Engine σ) (d : Descriptor) : Nat × Engine σ :=
  match if d.bindable then Task.joinable? e.unfinished d.method d.cacheKey else none with
  | some (index, t) => (index, e.report (.taskBound t.id t.method t.resultsCount))
  | none => e.create d

/-- Works off one command. -/
def handle (e : Engine σ) : Command → Engine σ
  | .submit d reply =>
    let (index, e) := e.accept d
    { e with replies := e.replies.setIfInBounds reply (.task index) }
  | .transition index source verdict => e.place index (some source) verdict.next

/-- Works off one command under a time tracker.  A task that is created does not finish, so a request
does not lead to a call. -/
def handleUnder (tracker : TimeTracker) (e : Engine σ) : Command → Engine σ
  | .submit d reply => e.handle (.submit d reply)
  | .transition index source verdict =>
    e.placeUnder tracker index (some source) verdict.next

/-- Works off commands until there are none or the budget is used up. -/
def workerLoop : Nat → Engine σ → Engine σ
  | 0, e => e.wake .worker
  | budget + 1, e =>
    match e.inbox with
    | [] => e
    | c :: rest => workerLoop budget ({ e with inbox := rest }.handle c)

/-- Stops: the delivery of every unfinished task is closed, and requests that wait are turned
away. -/
def stopWorker (e : Engine σ) : Engine σ :=
  let e := e.registry.foldl (fun e index => e.updateTask index Task.close) e
  let e := e.report (.engineStopped e.live)
  let e := e.inbox.foldl refuse e
  { e with inbox := [], stopped := true }

/-- The turn of the worker. -/
def workerTurn (e : Engine σ) : Engine σ :=
  if e.stopped then e else if e.cancelled then e.stopWorker else workerLoop turnBudget e

/-! ## The loops -/

/-- Makes promises for tasks that have arrived in a stage. -/
def promises (e : Engine σ) (stage : Stage) : List Nat → List Promise × Engine σ
  | [] => ([], e)
  | index :: rest =>
    match e.promise? stage index with
    | none => promises e stage rest
    | some p =>
      let (ps, e) := promises { e with used := e.used.push false } stage rest
      (p :: ps, e)

/-- Starts a handler and its supervisor. -/
def startHandler (e : Engine σ) (stage : Stage) (promises : List Promise) (r : Routine) :
    Engine σ :=
  let index := e.handlers.size
  let e := { e with handlers := e.handlers.push ⟨stage, promises, .running r, false⟩ }
  (e.wake (.handler index)).wake (.supervisor index)

/-- Hands one task to the stage's block. -/
def handOne (e : Engine σ) (stage : Stage) (index : Nat) : Engine σ :=
  match e.promises stage [index] with
  | ([p], e) => e.startHandler stage [p] ((e.blocks stage).onTask p)
  | (_, e) => e

/-- Hands the tasks of a window to the stage's block. -/
def handWindow (e : Engine σ) (stage : Stage) (members : List Nat) : Engine σ :=
  let (ps, e) := e.promises stage members
  e.startHandler stage ps ((e.blocks stage).onWindow ps)

/-- The loop of a stage that handles each task at once. -/
def immediateLoop (stage : Stage) : Nat → Engine σ → Engine σ
  | 0, e => e.wake (.loop stage)
  | budget + 1, e =>
    let l := e.loop stage
    match l.queue with
    | [] => e
    | index :: rest =>
      immediateLoop stage budget
        ((e.setLoop stage { l with queue := rest }).handOne stage index)

/-- The loop of a stage with a window.  The end of the window comes first: a task that arrives just
then opens the next one.  Once the queue is closed, so that no more tasks can arrive, the last window
ends when the queue is empty. -/
def windowLoop (stage : Stage) (window : Duration) (closed : Bool) : Nat → Engine σ → Engine σ
  | 0, e => e.wake (.loop stage)
  | budget + 1, e =>
    let l := e.loop stage
    match l.gathering with
    | some w =>
      if w.deadline ≤ e.now then
        windowLoop stage window closed budget
          ((e.setLoop stage { l with gathering := none }).handWindow stage w.members)
      else
        match l.queue with
        | [] =>
          if closed then (e.setLoop stage { l with gathering := none }).handWindow stage w.members
          else e
        | index :: rest =>
          windowLoop stage window closed budget
            (e.setLoop stage
              { queue := rest, gathering := some { w with members := w.members ++ [index] } })
    | none =>
      match l.queue with
      | [] => e
      | index :: rest =>
        let deadline := e.now + window.ticks
        let e := e.setLoop stage { queue := rest, gathering := some ⟨[index], deadline⟩ }
        windowLoop stage window closed budget
          (if deadline ≤ e.now then e else e.wakeAt deadline (.loop stage))

/-- The turn of the loop of a stage; once the engine is told to stop, it forgets what it has
collected.  Until then the worker keeps the queues open. -/
def loopTurn (e : Engine σ) (stage : Stage) : Engine σ :=
  if e.cancelled then e.setLoop stage ⟨[], none⟩
  else
    match (e.blocks stage).window with
    | none => immediateLoop stage turnBudget e
    | some window => windowLoop stage window false turnBudget e

/-! ## The handlers -/

/-- Changes a handler. -/
def updateHandler (e : Engine σ) (index : Nat) (f : Handler → Handler) : Engine σ :=
  { e with handlers := e.handlers.modify index f }

/-- Ends a handler; a supervisor that waits for it gets a turn. -/
def endHandler (e : Engine σ) (index : Nat) (ending : Ending) : Engine σ :=
  let watched := (e.handlers[index]?.map Handler.watched).getD false
  let e := e.updateHandler index fun h => { h with state := .ended ending }
  if watched then e.wake (.supervisor index) else e

/-- Puts a handler to sleep. -/
def suspend (e : Engine σ) (index : Nat) (moment : Moment) (r : Routine) : Engine σ :=
  (e.updateHandler index fun h => { h with state := .running r }).wakeAt moment (.handler index)

/-- Runs a routine until it ends or has to wait. -/
def perform (env : Environment σ) (index : Nat) : Routine → Engine σ → Engine σ
  | .finish ending, e => e.endHandler index ending
  | .look p k, e =>
    match e.view? p with
    | some view => perform env index (k view) e
    | none => e.endHandler index .ok
  | .complete p m k, e =>
    let (answer, e) := e.complete p m
    perform env index (k answer) e
  | .deliver p v k, e =>
    let (answer, e) := e.deliver p.task v
    perform env index (k answer) e
  | .fetch transport call k, e =>
    let (delay, outcome, world) := env.fetch e.now transport call e.world
    let e := { e with world }
    if delay.ticks = 0 then perform env index (k outcome) e
    else e.suspend index (e.now + delay.ticks) (k outcome)
  | .readCache key k, e =>
    let (outcome, world) := env.readCache e.now key e.world
    perform env index (k outcome) { e with world }
  | .writeCache key value lifetime k, e =>
    let (outcome, world) := env.writeCache e.now key value lifetime e.world
    perform env index (k outcome) { e with world }
  | .decode body type k, e =>
    let (outcome, world) := env.decode body type e.world
    perform env index (k outcome) { e with world }
  | .validate value k, e =>
    let (outcome, world) := env.validate value e.world
    perform env index (k outcome) { e with world }
  | .announce method headers k, e => perform env index k (e.announce method headers)
  | .report m k, e => perform env index k (e.report m)
  | .setFlag p key value k, e =>
    perform env index k (e.setFlag p.descriptor.strategy key value)
  | .sleep d k, e =>
    if d.ticks = 0 then perform env index k e else e.suspend index (e.now + d.ticks) k
  | .count stage k, e =>
    let (n, e) := e.tally stage
    perform env index (k n) e
  | .note p n k, e => perform env index k { e with notes := (e.now, p, n) :: e.notes }

/-- The turn of a handler. -/
def handlerTurn (env : Environment σ) (e : Engine σ) (index : Nat) : Engine σ :=
  match e.handlers[index]?.map Handler.state with
  | some (.running r) => perform env index r e
  | _ => e

/-! ## The supervisors -/

/-- Fails the promises that are still open. -/
def failOpen (e : Engine σ) (error : CallError) (ps : List Promise) : Engine σ :=
  ps.foldl (fun e p => (e.complete p (.fail error)).2) e

/-- The turn of a supervisor. -/
def supervisorTurn (e : Engine σ) (index : Nat) : Engine σ :=
  match e.handlers[index]? with
  | none => e
  | some h =>
    match h.state with
    | .running _ => e.updateHandler index fun h => { h with watched := true }
    | .ended .ok => e
    | .ended (.failed error) =>
      (e.report (.stageHandlerFailed h.stage.name h.promises.length error.message)).failOpen
        error h.promises
    | .ended (.crashed message) =>
      (e.report (.stagePanicked h.stage.name h.promises.length message)).failOpen
        (.crashed message) h.promises

/-! ## The subscribers -/

/-- What reading the bus brings next. -/
inductive Received where
  | event (e : Event)
  | lagged (skipped : Nat)
  | nothing

/-- Reads the bus at a position; answers the position after it as well.  A reader that is too far
behind learns how many events it has missed and goes on with the oldest that is kept. -/
def receive (e : Engine σ) (position : Nat) : Received × Nat :=
  let oldest := e.events.size - busCapacity
  if position < oldest then (.lagged (oldest - position), oldest)
  else
    match e.events[position]? with
    | some event => (.event event, position + 1)
    | none => (.nothing, position)

/-- Changes a subscriber. -/
def updateSubscriber (e : Engine σ) (index : Nat) (f : Subscriber → Subscriber) : Engine σ :=
  { e with subscribers := e.subscribers.modify index f }

/-- A subscriber is called with a result; one that wants no more is cancelled. -/
def hear (e : Engine σ) (index : Nat) (result : Except CallError Json) : Engine σ :=
  e.updateSubscriber index fun s =>
    { s with heard := s.heard ++ [(e.now, result)], cancelled := s.cancelled || s.once }

/-- Reads events until there are none, the budget is used up or the subscriber has ended. -/
def subscriberLoop (index : Nat) : Nat → Engine σ → Engine σ
  | 0, e => e.wake (.subscriber index)
  | budget + 1, e =>
    match e.subscribers[index]? with
    | none => e
    | some s =>
      if s.cancelled || e.cancelled then e
      else
        let (received, position) := e.receive s.position
        let e := e.updateSubscriber index fun s => { s with position }
        match received with
        | .nothing => e
        | .lagged skipped =>
          subscriberLoop index budget (e.report (.subscriptionLagged s.method skipped))
        | .event event =>
          if event.method == s.method && !event.verdict.isRoute then
            subscriberLoop index budget (e.hear index event.verdict.result)
          else subscriberLoop index budget e

/-! ## Every actor -/

/-- The turn of an actor. -/
def turn (env : Environment σ) (e : Engine σ) : Actor → Engine σ
  | .worker => e.workerTurn
  | .loop stage => e.loopTurn stage
  | .handler index => e.handlerTurn env index
  | .supervisor index => e.supervisorTurn index
  | .subscriber index => subscriberLoop index turnBudget e

/-! ## Requests from outside -/

/-- Asks for a task; an engine that has stopped turns every request away. -/
def submit (e : Engine σ) (d : Descriptor) : Nat × Engine σ :=
  let reply := e.replies.size
  if e.stopped then (reply, { e with replies := e.replies.push .refused })
  else (reply, { e with replies := e.replies.push .waiting }.send (.submit d reply))

/-- What became of a request. -/
def reply (e : Engine σ) (reply : Nat) : Reply := e.replies[reply]?.getD .waiting

/-- Adds a reader of the results of a method from now on. -/
def subscribe (e : Engine σ) (method : String) (once : Bool) : Nat × Engine σ :=
  let index := e.subscribers.size
  let s : Subscriber := ⟨method, once, e.events.size, false, []⟩
  (index, { e with subscribers := e.subscribers.push s }.wake (.subscriber index))

/-- Cancels a subscriber. -/
def unsubscribe (e : Engine σ) (index : Nat) : Engine σ :=
  (e.updateSubscriber index fun s => { s with cancelled := true }).wake (.subscriber index)

/-- Tells the engine to stop. -/
def shutdown (e : Engine σ) : Engine σ :=
  let e := { e with cancelled := true }
  (Stage.all.foldl (fun e stage => e.wake (.loop stage)) (e.wake .worker)).wakeSubscribers

/-- The text of requests that a stopped engine turns away. -/
def stoppedError : CallError := .interrupted "engine stopped"

/-- The engine shown as a value. -/
def render (e : Engine σ) : String :=
  Text.record "Engine"
    [("live_tasks", toString e.live), ("shut_down", toString e.cancelled)]

end Engine

/-- A reader of the results of a method that is asked for one result at a time. -/
structure Observer where
  method : String
  position : Nat
  cancelled : Bool
  deriving DecidableEq, Repr

namespace Observer

variable {σ : Type}

/-- A reader of the results of a method from now on. -/
def start (e : Engine σ) (method : String) : Observer := ⟨method, e.events.size, false⟩

/-- The next result of the method that is a success; failures and other methods are passed over. -/
def advance (o : Observer) : Nat → Engine σ → Reading Json × Observer × Engine σ
  | 0, e => (.waiting, o, e)
  | fuel + 1, e =>
    let (received, position) := e.receive o.position
    match received with
    | .nothing => (.waiting, o, e)
    | .lagged skipped =>
      advance { o with position } fuel (e.report (.subscriptionLagged o.method skipped))
    | .event event =>
      match event.verdict with
      | .success payload _ _ =>
        if event.method == o.method then (.item payload, { o with position }, e)
        else advance { o with position } fuel e
      | _ => advance { o with position } fuel e

/-- Asks for the next result; there is none once the reader is cancelled or the engine has been told
to stop. -/
def next (o : Observer) (e : Engine σ) : Reading Json × Observer × Engine σ :=
  if o.cancelled || e.cancelled then (.ended, o, e) else o.advance (e.events.size + 2) e

end Observer
end RpcFlow
