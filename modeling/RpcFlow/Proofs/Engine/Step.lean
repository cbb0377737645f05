import Mathlib.Logic.Relation
import RpcFlow.Engine.Turn

/-!
# The steps of an engine

A turn of an actor does many things at once, and which actor has its turn when is up to a scheduler.
What an engine guarantees does not hang on either, so it is stated over single steps: one command of
the worker, one task taken by a loop, one instruction of a routine, one promise that a supervisor
fails, one request from outside.

* `Engine.Step env drift` is the relation of one step, in any state in which it is possible.  Between
  the engine's own steps time may pass, other engines may create tasks, and the outside world may
  change as `drift` allows.
* `Engine.Reachable env drift blocks` are the states of all runs of an engine with these blocks.

That the turns which engines are given are sequences of such steps is shown in
`RpcFlow.Proofs.Engine.Turns`.
-/

set_option autoImplicit false

namespace RpcFlow

/-- The error that a supervisor finds in an ending, if there is one. -/
def Ending.error? : Ending → Option CallError
  | ok => none
  | failed error => some error
  | crashed message => some (.crashed message)

namespace Engine

variable {σ : Type}

/-! ## Single steps -/

/-- A handler goes on with a routine. -/
def resume (e : Engine σ) (index : Nat) (r : Routine) : Engine σ :=
  e.updateHandler index fun h => { h with state := .running r }

/-- Carries out the first instruction of a routine; the handler goes on with the rest. -/
def instruct (env : Environment σ) (index : Nat) (e : Engine σ) : Routine → Engine σ
  | .finish ending => e.endHandler index ending
  | .look p k =>
    match e.view? p with
    | some view => e.resume index (k view)
    | none => e.endHandler index .ok
  | .complete p m k => (e.complete p m).2.resume index (k (e.complete p m).1)
  | .deliver p v k => (e.deliver p.task v).2.resume index (k (e.deliver p.task v).1)
  | .fetch transport call k =>
    let (_, outcome, world) := env.fetch e.now transport call e.world
    { e with world }.resume index (k outcome)
  | .readCache key k =>
    let (outcome, world) := env.readCache e.now key e.world
    { e with world }.resume index (k outcome)
  | .writeCache key value lifetime k =>
    let (outcome, world) := env.writeCache e.now key value lifetime e.world
    { e with world }.resume index (k outcome)
  | .decode body type k =>
    let (outcome, world) := env.decode body type e.world
    { e with world }.resume index (k outcome)
  | .validate value k =>
    let (outcome, world) := env.validate value e.world
    { e with world }.resume index (k outcome)
  | .announce method headers k => (e.announce method headers).resume index k
  | .report m k => (e.report m).resume index k
  | .setFlag p key value k => (e.setFlag p.descriptor.strategy key value).resume index k
  | .sleep _ k => e.resume index k
  | .count stage k => (e.tally stage).2.resume index (k (e.tally stage).1)
  | .note p n k => { e with notes := (e.now, p, n) :: e.notes }.resume index k

/-- A subscriber reads the next event of the bus, if it has not ended. -/
def readBus (e : Engine σ) (index : Nat) : Engine σ :=
  match e.subscribers[index]? with
  | none => e
  | some s =>
    if s.cancelled || e.cancelled then e
    else
      let (received, position) := e.receive s.position
      let e := e.updateSubscriber index fun s => { s with position }
      match received with
      | .nothing => e
      | .lagged skipped => e.report (.subscriptionLagged s.method skipped)
      | .event event =>
        if event.method == s.method && !event.verdict.isRoute then
          e.hear index event.verdict.result
        else e

/-- One step of an engine. -/
inductive Step (env : Environment σ) (drift : σ → σ → Prop) : Engine σ → Engine σ → Prop
  /-- Actors ask for turns or are given them. -/
  | schedule (e : Engine σ) (woken : List Actor) (alarms : List (Moment × Actor)) :
    Step env drift e { e with woken, alarms }
  /-- Time passes, other engines create tasks and the outside world changes. -/
  | pass (e : Engine σ) (now : Moment) (nextTask : Nat) (world : σ) :
    e.now ≤ now → e.nextTask ≤ nextTask → drift e.world world →
      Step env drift e { e with now, nextTask, world }
  | report (e : Engine σ) (m : Message) : Step env drift e (e.report m)
  | submit (e : Engine σ) (d : Descriptor) : Step env drift e (e.submit d).2
  | subscribe (e : Engine σ) (method : String) (once : Bool) :
    Step env drift e (e.subscribe method once).2
  | unsubscribe (e : Engine σ) (index : Nat) : Step env drift e (e.unsubscribe index)
  | shutdown (e : Engine σ) : Step env drift e e.shutdown
  /-- A flag of a strategy is changed from outside. -/
  | setFlag (e : Engine σ) (s : Strategy) (key : String) (value : Option String) :
    Step env drift e (e.setFlag s key value)
  /-- Listeners register, cancel or take their notes away. -/
  | listen (e : Engine σ) (board : HeaderBoard) (heard : List HeaderCall) :
    Step env drift e { e with board, heard }
  /-- The worker works off the command that came first. -/
  | work (e : Engine σ) (c : Command) (rest : List Command) :
    e.cancelled = false → e.stopped = false → e.inbox = c :: rest →
      Step env drift e ({ e with inbox := rest }.handle c)
  | stop (e : Engine σ) : e.cancelled = true → e.stopped = false → Step env drift e e.stopWorker
  /-- The loop of a stage without a window starts a handler for the task that came first. -/
  | take (e : Engine σ) (stage : Stage) (index : Nat) (rest : List Nat) :
    e.cancelled = false → (e.blocks stage).window = none → (e.loop stage).queue = index :: rest →
      Step env drift e ((e.setLoop stage { e.loop stage with queue := rest }).handOne stage index)
  /-- The first task of a window opens it. -/
  | openWindow (e : Engine σ) (stage : Stage) (window : Duration) (index : Nat) (rest : List Nat) :
    e.cancelled = false → (e.blocks stage).window = some window →
    (e.loop stage).gathering = none → (e.loop stage).queue = index :: rest →
      Step env drift e
        (e.setLoop stage { queue := rest, gathering := some ⟨[index], e.now + window.ticks⟩ })
  /-- A task joins a window that has not ended. -/
  | gather (e : Engine σ) (stage : Stage) (w : OpenWindow) (index : Nat) (rest : List Nat) :
    e.cancelled = false → (e.blocks stage).window ≠ none →
    (e.loop stage).gathering = some w → e.now < w.deadline → (e.loop stage).queue = index :: rest →
      Step env drift e
        (e.setLoop stage { queue := rest, gathering := some { w with members := w.members ++ [index] } })
  /-- A window ends and a handler is started for its tasks. -/
  | closeWindow (e : Engine σ) (stage : Stage) (w : OpenWindow) :
    e.cancelled = false → (e.blocks stage).window ≠ none →
    (e.loop stage).gathering = some w → w.deadline ≤ e.now →
      Step env drift e
        ((e.setLoop stage { e.loop stage with gathering := none }).handWindow stage w.members)
  /-- The loop of a stage forgets what it has collected once the engine is told to stop. -/
  | forget (e : Engine σ) (stage : Stage) : e.cancelled = true →
      Step env drift e (e.setLoop stage ⟨[], none⟩)
  /-- A handler carries out an instruction. -/
  | run (e : Engine σ) (index : Nat) (h : Handler) (r : Routine) :
    e.handlers[index]? = some h → h.state = .running r →
      Step env drift e (e.instruct env index r)
  /-- A supervisor begins to wait for its handler. -/
  | watch (e : Engine σ) (index : Nat) :
    Step env drift e (e.updateHandler index fun h => { h with watched := true })
  /-- A supervisor fails a promise of a handler that ended with an error. -/
  | rescue (e : Engine σ) (index : Nat) (h : Handler) (ending : Ending) (error : CallError)
      (p : Promise) :
    e.handlers[index]? = some h → h.state = .ended ending → ending.error? = some error →
    p ∈ h.promises → Step env drift e (e.complete p (.fail error)).2
  | read (e : Engine σ) (index : Nat) : Step env drift e (e.readBus index)

/-- Any number of steps. -/
abbrev Steps (env : Environment σ) (drift : σ → σ → Prop) : Engine σ → Engine σ → Prop :=
  Relation.ReflTransGen (Step env drift)

/-- The states of the runs of an engine that is started with these blocks. -/
inductive Reachable (env : Environment σ) (drift : σ → σ → Prop) (blocks : Stage → Block) :
    Engine σ → Prop
  | start (world : σ) : Reachable env drift blocks (Engine.start blocks world)
  | step {e e' : Engine σ} : Reachable env drift blocks e → Step env drift e e' →
    Reachable env drift blocks e'

section

variable {env : Environment σ} {drift : σ → σ → Prop} {blocks : Stage → Block} {e e' : Engine σ}

/-- The more the outside world may do, the more steps there are. -/
theorem Step.mono {drift' : σ → σ → Prop} (hd : ∀ a b, drift a b → drift' a b)
    (h : Step env drift e e') : Step env drift' e e' := by
  cases h with
  | pass now nextTask world h₁ h₂ h₃ => exact .pass _ _ _ _ h₁ h₂ (hd _ _ h₃)
  | _ => constructor <;> assumption

theorem Steps.mono {drift' : σ → σ → Prop} (hd : ∀ a b, drift a b → drift' a b)
    (h : Steps env drift e e') : Steps env drift' e e' :=
  Relation.ReflTransGen.mono (fun _ _ => Step.mono hd) _ _ h

theorem Reachable.steps (he : Reachable env drift blocks e) (h : Steps env drift e e') :
    Reachable env drift blocks e' := by
  induction h with
  | refl => exact he
  | tail _ hs ih => exact ih.step hs

end

end Engine
end RpcFlow
