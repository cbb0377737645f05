import RpcFlow.Client.Basic
import RpcFlow.Engine.Bench

/-!
# Sessions

A session is a client together with engines on a bench: the client describes calls, the first engine
carries them out, and handles name the tasks they were given.  After every change the session lets
everything run that can run without the clock moving.

* `Session.describe`, `Session.submit` and `Session.perform` are the ways to make a call.
* `Session.outcome` is what the caller of a task has got so far.
* `Session.advance`, `Session.settle` and `Session.await` let time pass.
-/

set_option autoImplicit false

namespace RpcFlow

/-- A task of one of the engines of a session. -/
structure Handle where
  engine : Nat
  task : Nat
  deriving DecidableEq, Repr

/-- A client with its engines, and the next unused numbers of requests and strategies. -/
structure Session where
  fleet : Fleet Bench
  client : Client
  nextRequest : Nat
  nextCell : Nat

/-- What is put together for an engine: its windows, its retries, its facilities and the blocks that
replace built-in ones. -/
structure EngineSetup where
  window : Duration
  retries : Nat
  facilities : Facilities
  custom : List (Stage × Block)

namespace EngineSetup

/-- The usual engine, with one of the caches. -/
def usual (cache : Nat) : EngineSetup :=
  ⟨Stages.usualWindow, Stages.usualRetries, .usual cache, []⟩

/-- The block of a stage: the last that was put in its place, or the built-in one. -/
def blocks (s : EngineSetup) : Stage → Block :=
  s.custom.foldl (fun b x stage => if stage = x.1 then x.2 else b stage)
    (Stages.block s.window s.retries)

end EngineSetup

namespace Session

/-- The first engine, which carries out the calls of the client. -/
def mainEngine : Nat := 0

/-- A session with one engine. -/
def start (world : Bench) (setup : EngineSetup) (client : Client) (nextCell : Nat) : Session :=
  let (_, fleet) := (Fleet.start world).launch setup.facilities.environment setup.blocks
  ⟨fleet, client, 1, nextCell⟩

/-- Adds a usual engine with a cache of its own. -/
def addEngine (s : Session) : Nat × Session :=
  let (cache, world) := s.fleet.world.addCache
  let setup := EngineSetup.usual cache
  let (index, fleet) :=
    Fleet.launch { s.fleet with world } setup.facilities.environment setup.blocks
  (index, { s with fleet })

/-- Changes an engine and lets everything run that can. -/
def act {α : Type} (s : Session) (engine : Nat) (fallback : α)
    (change : Engine Bench → α × Engine Bench) : α × Session :=
  let (answer, fleet) := s.fleet.act engine fallback change
  (answer, { s with fleet := fleet.drain })

/-- Reads something off an engine. -/
def read {α : Type} (s : Session) (engine : Nat) (fallback : α) (get : Engine Bench → α) : α :=
  s.fleet.read engine fallback get

/-! ## Calls -/

/-- Describes a call of a declared method. -/
def describe (s : Session) (method : String) (params : Client.Params) (type : ResultType) :
    Except ClientError Descriptor × Session :=
  let (d, id, client) := s.client.describe s.nextRequest method params type
  (d, { s with nextRequest := id, client })

/-- Submits a described call; a stopped engine turns it away. -/
def submit (s : Session) (engine : Nat) (d : Descriptor) : Except CallError Handle × Session :=
  let (reply, s) := s.act engine 0 fun e => e.submit d
  match s.read engine .refused fun e => e.reply reply with
  | .task index => (.ok ⟨engine, index⟩, s)
  | _ => (.error Engine.stoppedError, s)

/-- The task of a handle. -/
def task? (s : Session) (h : Handle) : Option Task := s.read h.engine none fun e => e.tasks[h.task]?

/-- What the caller of a task has got so far. -/
def outcome (s : Session) (h : Handle) : Reading (Except CallError Json) :=
  s.read h.engine .waiting fun e => e.outcome h.task

/-! ## Time -/

/-- Lets time pass. -/
def advance (s : Session) (ms : Nat) : Session :=
  { s with fleet := s.fleet.advanceUntil (fun _ => false) (s.fleet.now + ms) }

/-- The unfinished tasks of the first engine. -/
def live (s : Session) : Nat := s.read mainEngine 0 Engine.live

/-- Lets time pass until no task is left, or up to a limit; answers how much has passed. -/
def settle (s : Session) (limit : Nat) : Nat × Session :=
  let done (f : Fleet Bench) : Bool := f.read mainEngine 0 Engine.live == 0
  let fleet := s.fleet.advanceUntil done (s.fleet.now + limit)
  (fleet.now - s.fleet.now, { s with fleet })

/-- Has the caller of a task got anything? -/
def resolved (h : Handle) (f : Fleet Bench) : Bool :=
  match f.read h.engine Reading.waiting fun e => e.outcome h.task with
  | .waiting => false
  | _ => true

/-- Lets time pass until the caller of a task gets its outcome, or up to a limit. -/
def await (s : Session) (h : Handle) (limit : Nat) : Option (Except CallError Json) × Session :=
  let s := { s with fleet := s.fleet.advanceUntil (resolved h) (s.fleet.now + limit) }
  match s.outcome h with
  | .item r => (some r, s)
  | _ => (none, s)

/-- The time a call is waited for. -/
def patience : Nat := 60000

/-- Submits a described call to the first engine and waits for its outcome. -/
def perform (s : Session) (d : Descriptor) : Option (Except CallError Json) × Session :=
  match s.submit mainEngine d with
  | (.error e, s) => (some (.error e), s)
  | (.ok h, s) => s.await h patience

/-! ## Listening -/

/-- Subscribes to the results of methods, one subscriber for each. -/
def subscribe (s : Session) (methods : List String) (once : Bool) : List Nat × Session :=
  methods.foldl
    (fun (acc : List Nat × Session) m =>
      let (i, s) := acc.2.act mainEngine 0 fun e => e.subscribe m once
      (acc.1 ++ [i], s))
    ([], s)

/-- Cancels subscribers. -/
def unsubscribe (s : Session) (subscribers : List Nat) : Session :=
  (s.act mainEngine () fun e => ((), subscribers.foldl Engine.unsubscribe e)).2

/-- What a subscriber has heard. -/
def heardBy (s : Session) (subscriber : Nat) : List (Moment × Except CallError Json) :=
  s.read mainEngine [] fun e => (e.subscribers[subscriber]?.map Subscriber.heard).getD []

/-- Has a subscriber ended, by itself or with the engine? -/
def isUnsubscribed (s : Session) (subscriber : Nat) : Bool :=
  s.read mainEngine true fun e =>
    e.cancelled || (e.subscribers[subscriber]?.map Subscriber.cancelled).getD true

/-- Asks an observer for its next result. -/
def observe (s : Session) (o : Observer) : Reading Json × Observer × Session :=
  let ((r, o), s) := s.act mainEngine ((.ended, o) : Reading Json × Observer) fun e =>
    let (r, o, e) := o.next e
    ((r, o), e)
  (r, o, s)

/-! ## The cache -/

/-- Changes the first cache of the bench. -/
def withCache {α : Type} (s : Session) (change : Moment → TimedCache → α × TimedCache) :
    α × Session :=
  let (answer, c) := change s.fleet.now (s.fleet.world.cache 0)
  (answer, { s with fleet := { s.fleet with world := s.fleet.world.setCache 0 c } })

/-- The number of entries of the first cache of the bench. -/
def cacheSize (s : Session) : Nat := (s.fleet.world.cache 0).size

end Session
end RpcFlow
