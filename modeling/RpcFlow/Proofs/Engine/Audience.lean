import RpcFlow.Proofs.Engine.Alike
import RpcFlow.Proofs.Engine.Caching
import RpcFlow.Proofs.Engine.Observing

/-!
# The audience of an engine

Whether a subscriber still listens is of no concern to anybody else.  Two engines that differ in one
subscriber are put side by side: on the same schedule, in a world that changes in the same way, they go
on differing in that subscriber alone.  Unsubscribing one is the case in question.  With what a single
subscriber hears and an observer sees this is all that an engine owes its audience.

* `Engine.playAmid` — the run of a schedule in a world that changes by itself;
  `Engine.steps_exists_playAmid` — every run is one.
* `Engine.Beside` — two engines that differ in one subscriber; `Engine.Beside.act` is the step,
  `Engine.Beside.playAmid` the run.
* `Engine.Unnoticed` — nobody but the subscriber can tell two engines apart.
* `Engine.hears_exactly` — **subscribers and observers are told the deliveries of their method**, and do
  not disturb each other.
-/

set_option autoImplicit false

namespace RpcFlow
namespace Engine

variable {σ : Type} {env : Environment σ} {drift : σ → σ → Prop} {e e' f f' : Engine σ} {i : Nat}

/-! ## Runs in a world that changes by itself -/

/-- The run of a schedule in a world that changes after each occasion in a given way. -/
def playAmid (env : Environment σ) (e : Engine σ) (schedule : List (Occasion × (σ → σ))) : Engine σ :=
  schedule.foldl (fun e x => { e.act env x.1 with world := x.2 (e.act env x.1).world }) e

theorem playAmid_append (env : Environment σ) (e : Engine σ)
    (schedule later : List (Occasion × (σ → σ))) :
    e.playAmid env (schedule ++ later) = (e.playAmid env schedule).playAmid env later :=
  List.foldl_append

/-- Every step is taken on an occasion, after which the world may change. -/
theorem Step.exists_occasion_amid (hs : Step env drift e e') :
    ∃ (a : Occasion) (change : σ → σ),
      e' = { e.act env a with world := change (e.act env a).world } := by
  have hstill : Step env Eq e e' →
      ∃ (a : Occasion) (change : σ → σ),
      e' = { e.act env a with world := change (e.act env a).world } := by
    intro h
    obtain ⟨a, rfl⟩ := h.exists_occasion
    exact ⟨a, id, rfl⟩
  cases hs with
  | pass now nextTask world hn ht hw =>
    exact ⟨.pass now nextTask, fun _ => world, by simp only [act, hn, ht, and_self, if_true]⟩
  | _ => exact hstill (by constructor <;> assumption)

/-- **Every run is one of a schedule** in a world that changes by itself. -/
theorem steps_exists_playAmid (h : Steps env drift e e') : ∃ schedule, e' = e.playAmid env schedule := by
  induction h with
  | refl => exact ⟨[], rfl⟩
  | tail _ hs ih =>
    obtain ⟨schedule, rfl⟩ := ih
    obtain ⟨a, change, rfl⟩ := hs.exists_occasion_amid
    exact ⟨schedule ++ [(a, change)], (playAmid_append env e schedule [(a, change)]).symm⟩

/-! ## Engines that differ in one subscriber -/

/-- Two engines that differ in one subscriber at most, apart from their journals and from who waits for a
turn. -/
structure Beside (i : Nat) (e f : Engine σ) : Prop where
  alike : Alike e f
  world : e.world = f.world
  handlers : e.handlers = f.handlers
  size : e.subscribers.size = f.subscribers.size
  others : ∀ j, j ≠ i → e.subscribers[j]? = f.subscribers[j]?

namespace Beside

theorem unsubscribe (e : Engine σ) (i : Nat) : Beside i e (e.unsubscribe i) where
  alike := rfl
  world := rfl
  handlers := rfl
  size := Array.size_modify.symm
  others := fun j hj => by
    have hother := subscribers_updateSubscriber e i j fun s => { s with cancelled := true }
    rw [if_neg (Ne.symm hj)] at hother
    exact hother.symm

/-- A change of anything but the surroundings. -/
theorem quiet (h : Beside i e f) {F : Engine σ → Engine σ} (halike : Alike (F e) (F f))
    (hF : ∀ g, (F g).world = g.world ∧ (F g).handlers = g.handlers ∧ (F g).subscribers = g.subscribers) :
    Beside i (F e) (F f) where
  alike := halike
  world := by rw [(hF e).1, (hF f).1, h.world]
  handlers := by rw [(hF e).2.1, (hF f).2.1, h.handlers]
  size := by rw [(hF e).2.2, (hF f).2.2, h.size]
  others := by
    rw [(hF e).2.2, (hF f).2.2]
    exact h.others

/-- A change that does the same to any engine. -/
theorem same (h : Beside i e f) {F : ∀ {σ : Type}, Engine σ → Engine σ}
    (hinner : ∀ {σ : Type} (e : Engine σ), Alike (F e) (F e.inner))
    (hF : ∀ g : Engine σ,
      (F g).world = g.world ∧ (F g).handlers = g.handlers ∧ (F g).subscribers = g.subscribers) :
    Beside i (F e) (F f) :=
  h.quiet (F := F) (.lift hinner h.alike) hF

/-- A change of handlers. -/
theorem rehandle (h : Beside i e f) {F : Engine σ → Engine σ} (halike : Alike (F e) (F f))
    (hF : ∀ g, (F g).world = g.world ∧ (F g).subscribers = g.subscribers)
    (hhandlers : (F e).handlers = (F f).handlers) : Beside i (F e) (F f) where
  alike := halike
  world := by rw [(hF e).1, (hF f).1, h.world]
  handlers := hhandlers
  size := by rw [(hF e).2, (hF f).2, h.size]
  others := by
    rw [(hF e).2, (hF f).2]
    exact h.others

/-- A change of a subscriber, the same in both engines unless it is the one in which they differ. -/
theorem resubscribe (h : Beside i e f) {F : Engine σ → Engine σ} (halike : Alike (F e) (F f))
    (hF : ∀ g, (F g).world = g.world ∧ (F g).handlers = g.handlers)
    (hsize : (F e).subscribers.size = (F f).subscribers.size)
    (hothers : ∀ j, j ≠ i → (F e).subscribers[j]? = (F f).subscribers[j]?) : Beside i (F e) (F f) where
  alike := halike
  world := by rw [(hF e).1, (hF f).1, h.world]
  handlers := by rw [(hF e).2, (hF f).2, h.handlers]
  size := hsize
  others := hothers

theorem withWorld (h : Beside i e f) (w : σ) : Beside i { e with world := w } { f with world := w } :=
  ⟨h.alike, rfl, h.handlers, h.size, h.others⟩

/-! ## Handlers -/

theorem resume (h : Beside i e f) (j : Nat) (r : Routine) : Beside i (e.resume j r) (f.resume j r) :=
  h.rehandle (F := fun e => e.resume j r) h.alike (fun _ => ⟨rfl, rfl⟩)
    (congrArg (fun hs => hs.modify j fun h => { h with state := .running r }) h.handlers)

theorem endHandler (h : Beside i e f) (j : Nat) (ending : Ending) :
    Beside i (e.endHandler j ending) (f.endHandler j ending) := by
  refine h.rehandle (F := fun e => e.endHandler j ending) (h.alike.endHandler j j ending ending)
    (fun g => ?_) ?_
  · rw [endHandler_eq]
    exact ⟨rfl, rfl⟩
  · rw [endHandler_eq e, endHandler_eq f, h.handlers]

theorem complete (h : Beside i e f) (p : Promise) (m : Move) :
    Beside i (e.complete p m).2 (f.complete p m).2 :=
  h.quiet (F := fun e => (e.complete p m).2) (h.alike.complete p m).2 fun g => by
    rw [complete_eq]
    exact ⟨rfl, rfl, rfl⟩

theorem deliver (h : Beside i e f) (j : Nat) (v : Verdict) :
    Beside i (e.deliver j v).2 (f.deliver j v).2 :=
  h.quiet (F := fun e => (e.deliver j v).2) (h.alike.deliver j v).2 fun g => by
    rw [deliver_eq]
    exact ⟨rfl, rfl, rfl⟩

/-- A handler carries out the same instruction in both engines. -/
theorem instruct (h : Beside i e f) (j : Nat) (r : Routine) :
    Beside i (e.instruct env j r) (f.instruct env j r) := by
  cases r with
  | finish ending => exact h.endHandler j ending
  | look p k =>
    have hview : e.view? p = f.view? p := congrArg (fun b => b.view? p) h.alike
    simp only [Engine.instruct, hview]
    cases f.view? p with
    | none => exact h.endHandler j .ok
    | some view => exact h.resume j (k view)
  | complete p m k =>
    simp only [Engine.instruct, (h.alike.complete p m).1]
    exact (h.complete p m).resume j _
  | deliver p v k =>
    simp only [Engine.instruct, (h.alike.deliver p.task v).1]
    exact (h.deliver p.task v).resume j _
  | fetch transport call k =>
    have hanswer : env.fetch e.now transport call e.world = env.fetch f.now transport call f.world := by
      rw [h.alike.now, h.world]
    simp only [Engine.instruct, hanswer]
    exact (h.withWorld _).resume j _
  | readCache key k =>
    have hanswer : env.readCache e.now key e.world = env.readCache f.now key f.world := by
      rw [h.alike.now, h.world]
    simp only [Engine.instruct, hanswer]
    exact (h.withWorld _).resume j _
  | writeCache key value lifetime k =>
    have hanswer : env.writeCache e.now key value lifetime e.world =
        env.writeCache f.now key value lifetime f.world := by
      rw [h.alike.now, h.world]
    simp only [Engine.instruct, hanswer]
    exact (h.withWorld _).resume j _
  | decode body type k =>
    have hanswer : env.decode body type e.world = env.decode body type f.world := by
      rw [h.world]
    simp only [Engine.instruct, hanswer]
    exact (h.withWorld _).resume j _
  | validate value k =>
    have hanswer : env.validate value e.world = env.validate value f.world := by
      rw [h.world]
    simp only [Engine.instruct, hanswer]
    exact (h.withWorld _).resume j _
  | announce method headers k =>
    exact (h.same (F := fun e => e.announce method headers) (fun _ => rfl)
      fun _ => ⟨rfl, rfl, rfl⟩).resume j k
  | report m k =>
    exact (h.quiet (F := fun e => e.report m) h.alike fun _ => ⟨rfl, rfl, rfl⟩).resume j k
  | setFlag p key value k =>
    exact (h.same (F := fun e => e.setFlag p.descriptor.strategy key value) (fun _ => rfl)
      fun _ => ⟨rfl, rfl, rfl⟩).resume j k
  | sleep d k => exact h.resume j k
  | count stage k =>
    have hcount : (e.tally stage).1 = (f.tally stage).1 :=
      congrArg (fun b => (b.tally stage).1) h.alike
    simp only [Engine.instruct, hcount]
    exact (h.same (F := fun e => (e.tally stage).2) (fun _ => rfl)
      fun _ => ⟨rfl, rfl, rfl⟩).resume j _
  | note p n k =>
    exact (h.same (F := fun e => { e with notes := (e.now, p, n) :: e.notes }) (fun _ => rfl)
      fun _ => ⟨rfl, rfl, rfl⟩).resume j k

/-! ## Loops -/

theorem setLoop (h : Beside i e f) (stage : Stage) (l : Loop) :
    Beside i (e.setLoop stage l) (f.setLoop stage l) :=
  h.quiet (F := fun e => e.setLoop stage l) (h.alike.setLoop stage l) fun _ => ⟨rfl, rfl, rfl⟩

theorem handOne (h : Beside i e f) (stage : Stage) (j : Nat) :
    Beside i (e.handOne stage j) (f.handOne stage j) := by
  refine h.rehandle (F := fun e => e.handOne stage j) (h.alike.handOne stage j) (fun g => ?_) ?_
  · rw [handOne_frame]
    exact ⟨rfl, rfl⟩
  · have htask : e.tasks[j]? = f.tasks[j]? := by rw [h.alike.tasks]
    cases ht : f.tasks[j]? with
    | none =>
      rw [handOne_of_none stage ht, handOne_of_none stage (htask.trans ht)]
      exact h.handlers
    | some t =>
      have hused : e.used = f.used := congrArg (fun b => b.used) h.alike
      obtain ⟨hps, he⟩ := handOne_eq stage (htask.trans ht)
      obtain ⟨hps', hf⟩ := handOne_eq stage ht
      rw [he, hf, hps, hps', h.alike.blocks, hused]
      simp only [assign, h.handlers]

theorem handWindow (h : Beside i e f) (stage : Stage) (members : List Nat) :
    Beside i (e.handWindow stage members) (f.handWindow stage members) := by
  refine h.rehandle (F := fun e => e.handWindow stage members) (h.alike.handWindow stage members)
    (fun g => ?_) ?_
  · rw [handWindow_eq]
    exact ⟨rfl, rfl⟩
  · rw [handWindow_eq e, handWindow_eq f, (h.alike.promises stage members).1, h.alike.blocks]
    simp only [assign, h.handlers]

/-! ## Readers -/

/-- The same change of one subscriber in both engines. -/
theorem updateSubscriber (h : Beside i e f) (j : Nat) {g : Subscriber → Subscriber} :
    Beside i (e.updateSubscriber j g) (f.updateSubscriber j g) := by
  refine h.resubscribe (F := fun e => e.updateSubscriber j g) h.alike (fun _ => ⟨rfl, rfl⟩) ?_
    fun k hk => ?_
  · exact Array.size_modify.trans (h.size.trans Array.size_modify.symm)
  · rw [subscribers_updateSubscriber, subscribers_updateSubscriber, h.others k hk]

theorem subscribe (h : Beside i e f) (method : String) (once : Bool) :
    Beside i (e.subscribe method once).2 (f.subscribe method once).2 := by
  have hevents : e.events = f.events := congrArg (fun b => b.events) h.alike
  refine h.resubscribe (F := fun e => (e.subscribe method once).2) h.alike (fun _ => ⟨rfl, rfl⟩) ?_
    fun k hk => ?_
  · simp only [Engine.subscribe, wake, Array.size_push, h.size]
  · simp only [Engine.subscribe, wake, Array.getElem?_push, h.size, h.others k hk, hevents]

/-- Readers that have come equally far read the same. -/
theorem readBus (h : Beside i e f) (j : Nat) : Beside i (e.readBus j) (f.readBus j) := by
  refine h.resubscribe (F := fun e => e.readBus j) (h.alike.readBus j j) (fun g => ?_) ?_ fun k hk => ?_
  · rw [readBus_eq]
    exact ⟨rfl, rfl⟩
  · rw [subscribers_readBus, subscribers_readBus, Array.size_modify, Array.size_modify, h.size]
  · have hon : e.readOn = f.readOn := by
      funext s
      simp only [readOn, h.alike.cancelled, h.alike.now, h.alike.receive]
    rw [subscribers_readBus, subscribers_readBus, Array.getElem?_modify, Array.getElem?_modify,
      h.others k hk, hon]

/-! ## Runs -/

/-- **Two engines that differ in one subscriber** still do so after both have taken the same occasion. -/
theorem act (h : Beside i e f) (a : Occasion) : Beside i (e.act env a) (f.act env a) := by
  have hcancelled := h.alike.cancelled
  cases a with
  | schedule woken alarms =>
    exact h.quiet (F := fun e => { e with woken, alarms }) h.alike fun _ => ⟨rfl, rfl, rfl⟩
  | pass now nextTask =>
    have hnext : e.nextTask = f.nextTask := congrArg (fun b => b.nextTask) h.alike
    simp only [Engine.act, h.alike.now, hnext]
    split
    · exact h.same (F := fun e => { e with now, nextTask }) (fun _ => rfl) fun _ => ⟨rfl, rfl, rfl⟩
    · exact h
  | report m => exact h.quiet (F := fun e => e.report m) h.alike fun _ => ⟨rfl, rfl, rfl⟩
  | submit d =>
    refine h.quiet (F := fun e => (e.submit d).2) (h.alike.submit d) fun g => ?_
    rw [submit_eq]
    exact ⟨rfl, rfl, rfl⟩
  | subscribe method once => exact h.subscribe method once
  | unsubscribe j =>
    exact (h.updateSubscriber j).quiet (F := fun e => e.wake (.subscriber j)) h.alike
      fun _ => ⟨rfl, rfl, rfl⟩
  | shutdown =>
    refine h.quiet (F := fun e => e.shutdown) h.alike.shutdown fun g => ?_
    rw [shutdown_eq]
    exact ⟨rfl, rfl, rfl⟩
  | setFlag s key value =>
    exact h.same (F := fun e => e.setFlag s key value) (fun _ => rfl) fun _ => ⟨rfl, rfl, rfl⟩
  | listen board heard =>
    exact h.same (F := fun e => { e with board, heard }) (fun _ => rfl) fun _ => ⟨rfl, rfl, rfl⟩
  | work =>
    refine h.quiet (F := fun e => e.serve) h.alike.serve fun g => ?_
    unfold Engine.serve
    split
    · rw [handle_eq]
      exact ⟨rfl, rfl, rfl⟩
    · exact ⟨rfl, rfl, rfl⟩
  | stop =>
    have hstopped : e.stopped = f.stopped := congrArg (fun b => b.stopped) h.alike
    simp only [Engine.act, hcancelled, hstopped]
    split
    · refine h.quiet (F := fun e => e.stopWorker) h.alike.stopWorker fun g => ?_
      rw [stopWorker_eq]
      exact ⟨rfl, rfl, rfl⟩
    · exact h
  | take stage =>
    simp only [Engine.act, hcancelled, h.alike.blocks, h.alike.loop]
    split
    · exact (h.setLoop stage _).handOne stage _
    · exact h
  | openWindow stage =>
    simp only [Engine.act, hcancelled, h.alike.blocks, h.alike.loop, h.alike.now]
    split
    · exact h.setLoop stage _
    · exact h
  | gather stage =>
    simp only [Engine.act, hcancelled, h.alike.blocks, h.alike.loop, h.alike.now]
    split
    · split
      · exact h.setLoop stage _
      · exact h
    · exact h
  | closeWindow stage =>
    simp only [Engine.act, hcancelled, h.alike.blocks, h.alike.loop, h.alike.now]
    split
    · split
      · exact (h.setLoop stage _).handWindow stage _
      · exact h
    · exact h
  | forget stage =>
    simp only [Engine.act, hcancelled]
    split
    · exact h.setLoop stage _
    · exact h
  | run j =>
    simp only [Engine.act, h.handlers]
    split
    · exact h.instruct j _
    · exact h
  | watch j =>
    exact h.rehandle (F := fun e => e.updateHandler j fun h => { h with watched := true }) h.alike
      (fun _ => ⟨rfl, rfl⟩)
      (congrArg (fun hs => hs.modify j fun h => { h with watched := true }) h.handlers)
  | rescue j place =>
    simp only [Engine.act, h.handlers]
    split
    · exact h.complete _ _
    · exact h
  | read j => exact h.readBus j

/-- **Two engines that differ in one subscriber** still do so at the end of a schedule. -/
theorem playAmid (h : Beside i e f) (schedule : List (Occasion × (σ → σ))) :
    Beside i (e.playAmid env schedule) (f.playAmid env schedule) := by
  induction schedule generalizing e f with
  | nil => exact h
  | cons x schedule ih =>
    have hact : Beside i (e.act env x.1) (f.act env x.1) := h.act x.1
    have hworld : x.2 (e.act env x.1).world = x.2 (f.act env x.1).world := by rw [hact.world]
    have hstep : Beside i { e.act env x.1 with world := x.2 (e.act env x.1).world }
        { f.act env x.1 with world := x.2 (f.act env x.1).world } := by
      rw [hworld]
      exact hact.withWorld _
    exact ih hstep

end Beside

/-! ## What the others notice -/

/-- Two engines that nobody but one subscriber can tell apart. -/
structure Unnoticed (i : Nat) (e f : Engine σ) : Prop where
  /-- All verdicts are the same, those recorded and those delivered. -/
  tasks : f.tasks = e.tasks
  answers : ∀ r, f.answer r = e.answer r
  events : f.events = e.events
  subscribers : ∀ j, j ≠ i → f.subscribers[j]? = e.subscribers[j]?
  observers : ∀ o : Observer, (o.next f).1 = (o.next e).1 ∧ (o.next f).2.1 = (o.next e).2.1

/-- What an observer is told depends on what the bus carries alone. -/
theorem Alike.advance (h : Alike e f) (fuel : Nat) (o : Observer) :
    (o.advance fuel e).1 = (o.advance fuel f).1 ∧ (o.advance fuel e).2.1 = (o.advance fuel f).2.1 := by
  induction fuel generalizing e f o with
  | zero => rw [Observer.advance_zero, Observer.advance_zero]; exact ⟨rfl, rfl⟩
  | succ fuel ih =>
    rw [Observer.advance_succ, Observer.advance_succ, h.receive]
    simp only
    split
    · exact ⟨rfl, rfl⟩
    · exact ih (h.report _ _) _
    · split
      · split
        · exact ⟨rfl, rfl⟩
        · exact ih h _
      · exact ih h _

theorem Alike.next (h : Alike e f) (o : Observer) :
    (o.next e).1 = (o.next f).1 ∧ (o.next e).2.1 = (o.next f).2.1 := by
  have hevents : e.events = f.events := congrArg (fun b => b.events) h
  simp only [Observer.next, h.cancelled, hevents]
  split
  · exact ⟨rfl, rfl⟩
  · exact h.advance _ o

theorem Beside.unnoticed (h : Beside i e f) : Unnoticed i e f where
  tasks := h.alike.tasks.symm
  answers r := (congrArg (fun b => b.answer r) h.alike).symm
  events := (congrArg (fun b => b.events) h.alike).symm
  subscribers j hj := (h.others j hj).symm
  observers o := ⟨(h.alike.next o).1.symm, (h.alike.next o).2.symm⟩

/-! ## What the audience is told -/

/-- What an engine owes those who begin to listen to it in a state. -/
structure Broadcasts (env : Environment σ) (drift : σ → σ → Prop) (e₀ : Engine σ) : Prop where
  /-- A subscriber that is never lagged hears the deliveries of its method. -/
  subscribers : ∀ method once ds e,
    Attends env drift e₀.subscribers.size (e₀.subscribe method once).2 ds e →
      ∃ s handled, Hears env drift method once (e₀.subscribe method once).2 e₀.subscribers.size ds
        handled e s
  /-- Of the built-in stages every delivery of the method is one that subscribers are called with. -/
  results : ∀ window retries, Reachable env drift (Stages.block window retries) e₀ →
    ∀ method once ds e, Attends env drift e₀.subscribers.size (e₀.subscribe method once).2 ds e →
      ∀ x ∈ ds, x.call? method = if x.method = method then some x.verdict.result else none
  /-- An observer that is never lagged yields the successes that a subscriber would hear. -/
  observers : ∀ method ds ys o e, Watches env drift method e₀ ds ys o e →
    ∃ handled, Sees method e₀ ds handled ys o e
  /-- Whether somebody unsubscribes is of no concern to tasks and to the others. -/
  others : ∀ i schedule,
    Unnoticed i (e₀.playAmid env schedule) ((e₀.unsubscribe i).playAmid env schedule)
  /-- An engine that is told to stop stays so: everybody has ended. -/
  shutdown : ∀ e, Steps env drift e₀.shutdown e → e.cancelled = true
  /-- Every run is one of those in which nobody notices. -/
  runs : ∀ e, Steps env drift e₀ e → ∃ schedule, e = e₀.playAmid env schedule

/-- **Subscribers and observers are told the deliveries of their method**, in their order and once each,
and they do not disturb each other: in every run of an engine with any stages and strategies, from any
state on. -/
theorem hears_exactly (env : Environment σ) (drift : σ → σ → Prop) (e₀ : Engine σ) :
    Broadcasts env drift e₀ where
  subscribers method once ds e h := h.hears
  results window retries he method once ds e h x hx := by
    have hreach : Reachable env drift (Stages.block window retries) e :=
      (he.step (.subscribe e₀ method once)).steps h.steps
    have hroute : x.verdict.isRoute = false := by
      refine hreach.isRoute_of_mem_events x ?_
      rw [h.events_eq]
      exact List.mem_append_right _ hx
    rw [Event.call?, Verdict.call?_eq, hroute]
    rfl
  observers method ds ys o e h := h.sees
  others i schedule := ((Beside.unsubscribe e₀ i).playAmid schedule).unnoticed
  shutdown e h := by
    by_contra hrunning
    have hc := h.cancelled (Bool.eq_false_of_not_eq_true hrunning)
    rw [shutdown_eq] at hc
    cases hc
  runs e h := steps_exists_playAmid h

/-- An engine that is called twice, after somebody has subscribed for one result; the second call is
answered from the cache. -/
def overheard : Engine (Unit × TimedCache) :=
  [.worker, .loop .initial, .handler 5, .worker, .loop .getFromCache, .handler 6, .worker,
    .loop .deliverResult, .handler 7, .subscriber 0].foldl (turn Client.pong.environment)
    (([.worker, .loop .initial, .handler 0, .worker, .loop .getFromCache, .handler 1, .worker,
        .loop .getFromNet, .loop .getFromNet, .handler 2, .worker, .loop .deliverResult, .handler 3,
        .subscriber 0, .loop .saveToCache, .handler 4, .worker].foldl (turn Client.pong.environment)
      (((Engine.start (Stages.block (.ofMillis 0) 1) ((), .empty)).subscribe "ping" true).2.submit
        (storedPing 1)).2).submit (storedPing 2)).2

theorem hears_exactly_overheard :
    let e₀ := Engine.start (Stages.block (.ofMillis 0) 1) ((), TimedCache.empty)
    let e₁ := (e₀.subscribe "ping" true).2
    let o := Observer.start e₀ "ping"
    (∃ ds s handled, Attends Client.pong.environment Backend.drift 0 e₁ ds overheard ∧
        Hears Client.pong.environment Backend.drift "ping" true e₁ 0 ds handled overheard s ∧
        ds.length = 2 ∧ s.heard.map Prod.snd = [.ok (.str "pong")] ∧ s.cancelled = true) ∧
      ∃ ds handled, Watches Client.pong.environment Backend.drift "ping" e₀ ds [.str "pong"]
          { o with position := 1 } overheard ∧
        Sees "ping" e₀ ds handled [.str "pong"] { o with position := 1 } overheard := by
  intro e₀ e₁ o
  have hsteps : Steps Client.pong.environment Backend.drift e₁ overheard :=
    .trans (.trans (.trans (.single (.submit _ _))
      (Steps.mono (fun _ _ h => h.elim) (turns_steps _ _))) (.single (.submit _ _)))
      (Steps.mono (fun _ _ h => h.elim) (turns_steps _ _))
  have hsize : overheard.events.size = 2 := by decide +kernel
  have hall := hears_exactly Client.pong.environment Backend.drift e₀
  constructor
  · obtain ⟨ds, hattends⟩ := Attends.of_steps (i := 0) hsteps (by rw [hsize]; decide)
    obtain ⟨s, handled, h⟩ := hall.subscribers "ping" true ds overheard hattends
    obtain ⟨s', hs', hheard⟩ : ∃ s, overheard.subscribers[0]? = some s ∧
        (s.heard.map Prod.snd, s.cancelled) = ([.ok (.str "pong")], true) :=
      Option.map_eq_some_iff.1 (by decide +kernel)
    obtain rfl : s = s' := Option.some.inj (h.subscriber.symm.trans hs')
    have hlength : ds.length = 2 := by
      rw [← hsize, ← Array.length_toList, hattends.events_eq]
      rfl
    exact ⟨ds, s, handled, hattends, h, hlength, congrArg Prod.fst hheard, congrArg Prod.snd hheard⟩
  · have hstart : Watches Client.pong.environment Backend.drift "ping" e₀ [] [] o e₀ := .start
    obtain ⟨ds, hwatches⟩ := hstart.steps (.head (.subscribe e₀ "ping" true) hsteps)
    have hl : ¬overheard.Lags o.position := by
      rw [Lags, hsize]
      decide
    obtain ⟨reading, passed, later, -, hnext, -⟩ := next_of_live (o := o) rfl (by decide +kernel) hl rfl
    have hitems : (o.next overheard).1.items = [.str "pong"] := by decide +kernel
    have hmoved : (o.next overheard).2.1 = { o with position := 1 } := by decide +kernel
    have hsame : (o.next overheard).2.2 = overheard := by rw [hnext]
    have hask := hwatches.ask fun _ _ => hl
    rw [hitems, hmoved, hsame] at hask
    obtain ⟨handled, hsees⟩ := hall.observers "ping" ds _ _ _ hask
    exact ⟨ds, handled, hask, hsees⟩

end Engine
end RpcFlow
