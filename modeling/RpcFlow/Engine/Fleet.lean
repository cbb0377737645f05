import RpcFlow.Engine.Turn

/-!
# Engines on one clock

A fleet is a number of engines that share a clock, the task ids and the outside world.  It hands out
the turns: actors that have been woken wait in one queue, first come first served, and an actor that
is waiting already is not put in again.  The clock moves only from one alarm to the next, when nobody
waits.

* `Fleet.act` changes an engine from outside and puts the actors it wakes into the queue.
* `Fleet.drain` gives turns until nobody waits.
* `Fleet.advanceUntil` moves the clock, up to a moment or until a condition holds.
-/

set_option autoImplicit false

namespace RpcFlow

/-- Engines that share a clock and the outside world. -/
structure Fleet (σ : Type) where
  now : Moment
  nextTask : Nat
  world : σ
  engines : Array (Environment σ × Engine σ)
  /-- The actors waiting for a turn, by engine. -/
  ready : List (Nat × Actor)
  /-- The alarms to come, the next first; of several at one moment the one set first. -/
  alarms : List (Moment × Nat × Actor)

namespace Fleet

variable {σ : Type}

/-- No engines yet. -/
def start (world : σ) : Fleet σ := ⟨0, 1, world, #[], [], []⟩

/-- Puts an actor at the end of the queue unless it is in the queue. -/
def queue (f : Fleet σ) (engine : Nat) (a : Actor) : Fleet σ :=
  if f.ready.contains (engine, a) then f else { f with ready := f.ready ++ [(engine, a)] }

/-- Puts an alarm behind all that are not later. -/
def insertAlarm (alarms : List (Moment × Nat × Actor)) (alarm : Moment × Nat × Actor) :
    List (Moment × Nat × Actor) :=
  alarms.takeWhile (fun x => x.1 ≤ alarm.1) ++ alarm :: alarms.dropWhile fun x => x.1 ≤ alarm.1

/-- Takes back an engine after a change, with the actors it woke and the alarms it set. -/
def absorb (f : Fleet σ) (index : Nat) (env : Environment σ) (e : Engine σ) : Fleet σ :=
  let woken := e.woken
  let alarms := e.alarms
  let e := { e with woken := [], alarms := [] }
  let f := { f with
    nextTask := e.nextTask
    world := e.world
    engines := f.engines.setIfInBounds index (env, e)
    alarms := alarms.foldl (fun as x => insertAlarm as (x.1, index, x.2)) f.alarms }
  woken.foldl (fun f a => f.queue index a) f

/-- An engine as it sees the clock and the world now. -/
def engine? (f : Fleet σ) (index : Nat) : Option (Environment σ × Engine σ) :=
  f.engines[index]?.map fun x =>
    (x.1, { x.2 with now := f.now, nextTask := f.nextTask, world := f.world })

/-- Changes an engine from outside. -/
def act {α : Type} (f : Fleet σ) (index : Nat) (fallback : α) (change : Engine σ → α × Engine σ) :
    α × Fleet σ :=
  match f.engine? index with
  | none => (fallback, f)
  | some (env, e) =>
    let (answer, e) := change e
    (answer, f.absorb index env e)

/-- Reads something off an engine. -/
def read {α : Type} (f : Fleet σ) (index : Nat) (fallback : α) (get : Engine σ → α) : α :=
  match f.engine? index with
  | none => fallback
  | some (_, e) => get e

/-- Adds an engine. -/
def launch (f : Fleet σ) (env : Environment σ) (blocks : Stage → Block) : Nat × Fleet σ :=
  (f.engines.size, { f with engines := f.engines.push (env, Engine.start blocks f.world) })

/-- Gives an actor its turn. -/
def give (f : Fleet σ) (index : Nat) (a : Actor) : Fleet σ :=
  match f.engine? index with
  | none => f
  | some (env, e) => f.absorb index env (e.turn env a)

/-- Gives turns, at most `fuel`, until nobody waits. -/
def drainWithin : Nat → Fleet σ → Fleet σ
  | 0, f => f
  | fuel + 1, f =>
    match f.ready with
    | [] => f
    | (index, a) :: rest => drainWithin fuel ({ f with ready := rest }.give index a)

/-- A number of turns that no work within one moment comes near. -/
def turnLimit : Nat := Nat.pow 10 12

/-- Gives turns until nobody waits. -/
def drain (f : Fleet σ) : Fleet σ := drainWithin turnLimit f

/-- Gives every actor whose alarm has come its turn. -/
def ring (f : Fleet σ) : Fleet σ :=
  let due := f.alarms.takeWhile fun x => x.1 ≤ f.now
  let f := { f with alarms := f.alarms.dropWhile fun x => x.1 ≤ f.now }
  (due.foldl (fun f x => f.queue x.2.1 x.2.2) f).drain

/-! ## Turns take no time -/

theorem now_queue (f : Fleet σ) (engine : Nat) (a : Actor) : (f.queue engine a).now = f.now := by
  unfold queue
  split <;> rfl

theorem now_foldl_queue {α : Type} (entry : α → Nat × Actor) (l : List α) (f : Fleet σ) :
    (l.foldl (fun f x => f.queue (entry x).1 (entry x).2) f).now = f.now := by
  induction l generalizing f with
  | nil => rfl
  | cons x rest ih => rw [List.foldl_cons, ih, now_queue]

theorem now_absorb (f : Fleet σ) (index : Nat) (env : Environment σ) (e : Engine σ) :
    (f.absorb index env e).now = f.now :=
  now_foldl_queue (fun a => (index, a)) _ _

theorem now_give (f : Fleet σ) (index : Nat) (a : Actor) : (f.give index a).now = f.now := by
  unfold give
  split
  · rfl
  · exact now_absorb ..

theorem now_drainWithin (fuel : Nat) (f : Fleet σ) : (drainWithin fuel f).now = f.now := by
  induction fuel generalizing f with
  | zero => rfl
  | succ fuel ih =>
    unfold drainWithin
    split
    · rfl
    · rw [ih, now_give]

theorem now_ring (f : Fleet σ) : f.ring.now = f.now := by
  unfold ring drain
  rw [now_drainWithin, now_foldl_queue fun x : Moment × Nat × Actor => (x.2.1, x.2.2)]

/-! ## Time passes -/

/-- The next moment up to `target` at which anything can happen. -/
def nextMoment (f : Fleet σ) (target : Moment) : Moment :=
  match f.alarms with
  | [] => target
  | alarm :: _ => min target (max alarm.1 (f.now + 1))

theorem now_lt_nextMoment {f : Fleet σ} {target : Moment} (h : f.now < target) :
    f.now < f.nextMoment target := by
  unfold nextMoment
  split
  · exact h
  · exact Nat.lt_min.2 ⟨h, Nat.lt_of_lt_of_le (Nat.lt_succ_self _) (Nat.le_max_right _ _)⟩

/-- Moves the clock from alarm to alarm up to `target`, or until `done` holds. -/
def advanceUntil (done : Fleet σ → Bool) (target : Moment) (f : Fleet σ) : Fleet σ :=
  if done f then f
  else if _ahead : f.now < target then
    advanceUntil done target (ring { f with now := f.nextMoment target })
  else f
termination_by target - f.now
decreasing_by
  have later : f.now < f.nextMoment target := now_lt_nextMoment _ahead
  rw [now_ring]
  exact Nat.sub_lt_sub_left _ahead later

end Fleet
end RpcFlow
