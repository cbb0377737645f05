import RpcFlow.Engine.Fleet
import RpcFlow.Proofs.Engine.Changes

/-!
# Turns are sequences of steps

The turns that an engine is given by a fleet do nothing that single steps could not do, so what holds
of every reachable engine holds of every engine of a fleet, whatever the order of the turns.

* `turn_steps`: a turn of any actor is a sequence of steps in which no time passes.
* `Fleet.Sound` says that every engine of a fleet is reachable; `Fleet.sound_give`,
  `Fleet.sound_drainWithin` and `Fleet.sound_advanceUntil` say that the fleet keeps it.
-/

set_option autoImplicit false

namespace RpcFlow
namespace Engine

open Relation (ReflTransGen)

variable {σ : Type} {env : Environment σ} {e e' : Engine σ}

/-- Steps of an engine by itself: nothing else happens meanwhile. -/
abbrev OwnSteps (env : Environment σ) : Engine σ → Engine σ → Prop :=
  Steps env fun _ _ => False

/-- An engine by itself does not make time pass, but it may use up task ids. -/
theorem Step.now_eq (h : Step env (fun _ _ => False) e e') :
    e'.now = e.now ∧ e.nextTask ≤ e'.nextTask := by
  cases h with
  | pass now nextTask world h₁ h₂ h₃ => exact h₃.elim
  | submit d => rw [submit_eq]; exact ⟨rfl, Nat.le_refl _⟩
  | shutdown => rw [shutdown_eq]; exact ⟨rfl, Nat.le_refl _⟩
  | work c rest =>
    cases c with
    | submit d reply =>
      simp only [handle]
      rcases accept_cases { e with inbox := rest } d with ⟨i, t, -, -, h⟩ | ⟨-, h⟩
      · rw [h]; exact ⟨rfl, Nat.le_refl _⟩
      · rw [h, create_eq]; exact ⟨rfl, Nat.le_succ _⟩
    | transition i source verdict =>
      simp only [handle]
      rw [place_eq]
      exact ⟨rfl, Nat.le_refl _⟩
  | stop => rw [stopWorker_eq]; exact ⟨rfl, Nat.le_refl _⟩
  | take stage index rest => rw [handOne_frame]; exact ⟨rfl, Nat.le_refl _⟩
  | closeWindow stage w => rw [handWindow_eq]; exact ⟨rfl, Nat.le_refl _⟩
  | run index h r => rw [instruct_eq]; exact ⟨rfl, Nat.le_refl _⟩
  | rescue index h ending error p => rw [complete_eq]; exact ⟨rfl, Nat.le_refl _⟩
  | read index => rw [readBus_eq]; exact ⟨rfl, Nat.le_refl _⟩
  | _ => exact ⟨rfl, Nat.le_refl _⟩

theorem OwnSteps.now_eq (h : OwnSteps env e e') : e'.now = e.now ∧ e.nextTask ≤ e'.nextTask := by
  induction h with
  | refl => exact ⟨rfl, Nat.le_refl _⟩
  | tail _ hs ih => exact ⟨hs.now_eq.1.trans ih.1, Nat.le_trans ih.2 hs.now_eq.2⟩

/-! ## The turns -/

/-- Asking for turns is a step of its own. -/
theorem own_schedule (e : Engine σ) (woken : List Actor) (alarms : List (Moment × Actor)) :
    OwnSteps env e { e with woken, alarms } :=
  .single (.schedule e woken alarms)

theorem own_wake (e : Engine σ) (a : Actor) : OwnSteps env e (e.wake a) :=
  own_schedule e (e.woken ++ [a]) e.alarms

theorem own_wakeAt (e : Engine σ) (moment : Moment) (a : Actor) :
    OwnSteps env e (e.wakeAt moment a) :=
  own_schedule e e.woken (e.alarms ++ [(moment, a)])

theorem workerLoop_steps (budget : Nat) (e : Engine σ) (hc : e.cancelled = false)
    (hs : e.stopped = false) : OwnSteps env e (workerLoop budget e) := by
  induction budget generalizing e with
  | zero => exact own_wake e .worker
  | succ budget ih =>
    unfold workerLoop
    split
    · exact .refl
    · rename_i c rest hi
      refine .head (.work e c rest hc hs hi) (ih _ ?_ ?_)
      · rw [handle_eq]; exact hc
      · rw [handle_eq]; exact hs

theorem workerTurn_steps (e : Engine σ) : OwnSteps env e e.workerTurn := by
  unfold workerTurn
  split
  · exact .refl
  · rename_i hs
    split
    · rename_i hc
      exact .single (.stop e hc (by simpa using hs))
    · rename_i hc
      exact workerLoop_steps _ e (by simpa using hc) (by simpa using hs)

theorem immediateLoop_steps (stage : Stage) (budget : Nat) (e : Engine σ)
    (hc : e.cancelled = false) (hw : (e.blocks stage).window = none) :
    OwnSteps env e (immediateLoop stage budget e) := by
  induction budget generalizing e with
  | zero => exact own_wake e (.loop stage)
  | succ budget ih =>
    unfold immediateLoop
    simp only
    split
    · exact .refl
    · rename_i index rest hq
      refine .head (.take e stage index rest hc hw hq) (ih _ ?_ ?_)
      · rw [handOne_frame]; exact hc
      · rw [handOne_frame]; exact hw

theorem windowLoop_steps (stage : Stage) (window : Duration) (budget : Nat) (e : Engine σ)
    (hc : e.cancelled = false) (hw : (e.blocks stage).window = some window) :
    OwnSteps env e (windowLoop stage window false budget e) := by
  have hn : (e.blocks stage).window ≠ none := by simp [hw]
  induction budget generalizing e with
  | zero => exact own_wake e (.loop stage)
  | succ budget ih =>
    unfold windowLoop
    simp only [Bool.false_eq_true, if_false]
    split
    · rename_i w hg
      split
      · rename_i hd
        refine .head (.closeWindow e stage w hc hn hg hd) (ih _ ?_ ?_ ?_)
        all_goals rw [handWindow_eq]; assumption
      · rename_i hd
        split
        · exact .refl
        · rename_i index rest hq
          exact .head (.gather e stage w index rest hc hn hg (Nat.lt_of_not_le hd) hq)
            (ih _ hc hw hn)
    · rename_i hg
      split
      · exact .refl
      · rename_i index rest hq
        refine .head (.openWindow e stage window index rest hc hw hg hq) ?_
        split
        · exact ih _ hc hw hn
        · exact (own_wakeAt _ _ _).trans (ih _ hc hw hn)

theorem loopTurn_steps (e : Engine σ) (stage : Stage) : OwnSteps env e (e.loopTurn stage) := by
  unfold loopTurn
  split
  · rename_i hc
    exact .single (.forget e stage hc)
  · rename_i hc
    have hc' : e.cancelled = false := by simpa using hc
    split
    · rename_i hw
      exact immediateLoop_steps stage _ e hc' hw
    · rename_i window hw
      exact windowLoop_steps stage window _ e hc' hw

/-- Running a routine until it ends or has to wait is carrying out its instructions one by one. -/
theorem perform_steps {index : Nat} {h : Handler} (r : Routine) (e : Engine σ)
    (hi : e.handlers[index]? = some h) :
    OwnSteps env (e.resume index r) (perform env index r e) := by
  have here : ∀ {r : Routine} {e e₁ : Engine σ}, e.handlers[index]? = some h →
      (e.resume index r).instruct env index r = e₁ →
      Step env (fun _ _ => False) (e.resume index r) e₁ := by
    rintro r e _ hi rfl
    exact .run _ index { h with state := .running r } r
      (by rw [handlers_resume, if_pos rfl, hi]; rfl) rfl
  -- `perform` does not write down what the handler is about to do, single steps do
  induction r generalizing e with
  | finish ending => exact .single (here hi (endHandler_resume e index _ ending))
  | look p k ih =>
    have hv : (e.resume index (.look p k)).view? p = e.view? p := rfl
    simp only [perform]
    split <;> rename_i hw <;> rw [← hv] at hw
    · refine .head (here hi ?_) (ih _ e hi)
      simp only [instruct, hw]
      exact resume_resume e index _ _
    · refine .single (here hi ?_)
      simp only [instruct, hw]
      exact endHandler_resume e index _ .ok
  | complete p m k ih =>
    have hi' : (e.complete p m).2.handlers[index]? = some h := by rw [complete_eq]; exact hi
    have hp : perform env index (.complete p m k) e =
        perform env index (k (e.complete p m).1) (e.complete p m).2 := rfl
    rw [hp]
    refine .head (here hi ?_) (ih _ (e.complete p m).2 hi')
    simp only [instruct, complete_resume]
    exact resume_resume _ index _ _
  | deliver p v k ih =>
    have hi' : (e.deliver p.task v).2.handlers[index]? = some h := by rw [deliver_eq]; exact hi
    have hp : perform env index (.deliver p v k) e =
        perform env index (k (e.deliver p.task v).1) (e.deliver p.task v).2 := rfl
    rw [hp]
    refine .head (here hi ?_) (ih _ (e.deliver p.task v).2 hi')
    simp only [instruct, deliver_resume]
    exact resume_resume _ index _ _
  | fetch transport call k ih =>
    let after : Engine σ := { e with world := (env.fetch e.now transport call e.world).2.2 }
    have hs : OwnSteps env (e.resume index (.fetch transport call k))
        (after.resume index (k (env.fetch e.now transport call e.world).2.1)) :=
      .single (here hi (resume_resume after index _ _))
    have hp : perform env index (.fetch transport call k) e =
        if (env.fetch e.now transport call e.world).1.ticks = 0 then
          perform env index (k (env.fetch e.now transport call e.world).2.1) after
        else after.suspend index (e.now + (env.fetch e.now transport call e.world).1.ticks)
          (k (env.fetch e.now transport call e.world).2.1) := rfl
    rw [hp]
    refine hs.trans ?_
    split
    · exact ih _ after hi
    · exact own_wakeAt _ _ _
  | readCache key k ih =>
    let after : Engine σ := { e with world := (env.readCache e.now key e.world).2 }
    exact .head (here hi (resume_resume after index _ _)) (ih _ after hi)
  | writeCache key value lifetime k ih =>
    let after : Engine σ := { e with world := (env.writeCache e.now key value lifetime e.world).2 }
    exact .head (here hi (resume_resume after index _ _)) (ih _ after hi)
  | decode body type k ih =>
    let after : Engine σ := { e with world := (env.decode body type e.world).2 }
    exact .head (here hi (resume_resume after index _ _)) (ih _ after hi)
  | validate value k ih =>
    let after : Engine σ := { e with world := (env.validate value e.world).2 }
    exact .head (here hi (resume_resume after index _ _)) (ih _ after hi)
  | announce method headers k ih =>
    exact .head (here hi (resume_resume (e.announce method headers) index _ _)) (ih _ hi)
  | report m k ih => exact .head (here hi (resume_resume (e.report m) index _ _)) (ih _ hi)
  | setFlag p key value k ih =>
    exact .head (here hi (resume_resume (e.setFlag p.descriptor.strategy key value) index _ _))
      (ih _ hi)
  | sleep d k ih =>
    have hs : OwnSteps env (e.resume index (.sleep d k)) (e.resume index k) :=
      .single (here hi (resume_resume e index _ _))
    have hp : perform env index (.sleep d k) e =
        if d.ticks = 0 then perform env index k e else e.suspend index (e.now + d.ticks) k := rfl
    rw [hp]
    refine hs.trans ?_
    split
    · exact ih e hi
    · exact own_wakeAt _ _ _
  | count stage k ih =>
    exact .head (here hi (resume_resume (e.tally stage).2 index _ _)) (ih _ (e.tally stage).2 hi)
  | note p n k ih =>
    let after : Engine σ := { e with notes := (e.now, p, n) :: e.notes }
    exact .head (here hi (resume_resume after index _ _)) (ih after hi)

theorem handlerTurn_steps (e : Engine σ) (index : Nat) :
    OwnSteps env e (e.handlerTurn env index) := by
  unfold handlerTurn
  split
  · rename_i r hr
    obtain ⟨h, hi, hs⟩ := Option.map_eq_some_iff.1 hr
    have hp : OwnSteps env (e.resume index r) (perform env index r e) := perform_steps r e hi
    rwa [resume_self hi hs] at hp
  · exact .refl

/-- A supervisor fails the promises of its handler one by one. -/
theorem failOpen_steps {index : Nat} {h : Handler} {ending : Ending} {error : CallError}
    (herr : ending.error? = some error) (ps : List Promise) (hps : ∀ p ∈ ps, p ∈ h.promises)
    (hs : h.state = .ended ending) (e : Engine σ) (hi : e.handlers[index]? = some h) :
    OwnSteps env e (e.failOpen error ps) := by
  induction ps generalizing e with
  | nil => exact .refl
  | cons p ps ih =>
    refine .head (.rescue e index h ending error p hi hs herr (hps p (by simp))) ?_
    exact ih (fun q hq => hps q (by simp [hq])) _ (by rw [complete_eq]; exact hi)

theorem supervisorTurn_steps (e : Engine σ) (index : Nat) :
    OwnSteps env e (e.supervisorTurn index) := by
  unfold supervisorTurn
  split
  · exact .refl
  · rename_i h hi
    split <;> rename_i hs
    · exact .single (.watch e index)
    · exact .refl
    · exact .head (.report e _) (failOpen_steps rfl _ (fun _ hp => hp) hs _ hi)
    · exact .head (.report e _) (failOpen_steps rfl _ (fun _ hp => hp) hs _ hi)

/-- A subscriber that has not ended reads the next event; `goOn` says what it does after that. -/
def readNext (index : Nat) (goOn : Engine σ → Engine σ) (e : Engine σ) : Engine σ :=
  match e.subscribers[index]? with
  | none => e
  | some s =>
    if s.cancelled || e.cancelled then e
    else
      let (received, position) := e.receive s.position
      let e := e.updateSubscriber index fun s => { s with position }
      match received with
      | .nothing => e
      | .lagged skipped => goOn (e.report (.subscriptionLagged s.method skipped))
      | .event event =>
        if event.method == s.method && !event.verdict.isRoute then
          goOn (e.hear index event.verdict.result)
        else goOn e

-- How many events the bus keeps does not matter here, and Lean is not to count them.
seal busCapacity in
theorem subscriberLoop_succ (index budget : Nat) (e : Engine σ) :
    subscriberLoop index (budget + 1) e = readNext index (subscriberLoop index budget) e := rfl

/-- It does not go on, or it goes on with what reading the bus has changed. -/
theorem readNext_cases (index : Nat) (goOn : Engine σ → Engine σ) (e : Engine σ) :
    readNext index goOn e = e ∨ readNext index goOn e = e.readBus index ∨
      readNext index goOn e = goOn (e.readBus index) := by
  unfold readNext readBus
  cases e.subscribers[index]? with
  | none => exact .inl rfl
  | some s =>
    by_cases hn : (s.cancelled || e.cancelled) = true
    · left
      simp only [if_pos hn]
    · simp only [if_neg hn]
      cases (e.receive s.position).1 with
      | nothing => exact .inr (.inl rfl)
      | lagged skipped => exact .inr (.inr rfl)
      | event event =>
        simp only
        split <;> exact .inr (.inr rfl)

theorem subscriberLoop_steps (index budget : Nat) (e : Engine σ) :
    OwnSteps env e (subscriberLoop index budget e) := by
  induction budget generalizing e with
  | zero => exact own_wake e _
  | succ budget ih =>
    rw [subscriberLoop_succ]
    rcases readNext_cases index (subscriberLoop index budget) e with h | h | h
    · rw [h]
    · rw [h]
      exact .single (.read e index)
    · rw [h]
      exact .head (.read e index) (ih _)

/-- **A turn is a sequence of steps.** -/
theorem turn_steps (e : Engine σ) (a : Actor) : OwnSteps env e (e.turn env a) := by
  cases a with
  | worker => exact workerTurn_steps e
  | loop stage => exact loopTurn_steps e stage
  | handler index => exact handlerTurn_steps e index
  | supervisor index => exact supervisorTurn_steps e index
  | subscriber index => exact subscriberLoop_steps index _ e

/-- So are the turns that actors are given one after the other. -/
theorem turns_steps (actors : List Actor) (e : Engine σ) :
    OwnSteps env e (actors.foldl (turn env) e) := by
  induction actors generalizing e with
  | nil => exact .refl
  | cons a actors ih => exact (turn_steps e a).trans (ih (e.turn env a))

end Engine

/-! ## Fleets -/

namespace Fleet

open Engine

variable {σ : Type}

/-- Every engine of a fleet is in a state of a run of its own, and is not ahead of the fleet's clock
or its task ids. -/
def Sound (f : Fleet σ) : Prop :=
  ∀ x ∈ f.engines, (∃ blocks, Reachable x.1 (fun _ _ => True) blocks x.2) ∧ x.2.now ≤ f.now ∧
    x.2.nextTask ≤ f.nextTask

theorem engines_queue (f : Fleet σ) (index : Nat) (a : Actor) :
    (f.queue index a).engines = f.engines ∧ (f.queue index a).now = f.now ∧
      (f.queue index a).nextTask = f.nextTask := by
  unfold queue
  split <;> exact ⟨rfl, rfl, rfl⟩

theorem Sound.queue {f : Fleet σ} (h : f.Sound) (index : Nat) (a : Actor) :
    (f.queue index a).Sound := by
  obtain ⟨he, hn, ht⟩ := engines_queue f index a
  unfold Sound
  rw [hn, ht, he]
  exact h

theorem Sound.foldl_queue {α : Type} (entry : α → Nat × Actor) (l : List α) {f : Fleet σ}
    (h : f.Sound) : (l.foldl (fun f x => f.queue (entry x).1 (entry x).2) f).Sound := by
  induction l generalizing f with
  | nil => exact h
  | cons x l ih => exact ih (h.queue _ _)

/-- An engine that the fleet shows is in a state of a run: time has passed since it was put back. -/
theorem Sound.engine? {f : Fleet σ} (h : f.Sound) {index : Nat} {env : Environment σ}
    {e : Engine σ} (he : f.engine? index = some (env, e)) :
    (∃ blocks, Reachable env (fun _ _ => True) blocks e) ∧ e.now = f.now ∧
      e.nextTask = f.nextTask := by
  obtain ⟨x, hx, hxe⟩ := Option.map_eq_some_iff.1 he
  obtain ⟨rfl, rfl⟩ := Prod.mk.injEq .. ▸ hxe
  obtain ⟨⟨blocks, hr⟩, hn, ht⟩ := h x (Array.mem_of_getElem? hx)
  exact ⟨⟨blocks, hr.step (.pass _ _ _ _ hn ht trivial)⟩, rfl, rfl⟩

theorem Sound.absorb {f : Fleet σ} (h : f.Sound) (index : Nat) {env : Environment σ}
    {e : Engine σ} (he : ∃ blocks, Reachable env (fun _ _ => True) blocks e) (hn : e.now = f.now)
    (ht : f.nextTask ≤ e.nextTask) : (f.absorb index env e).Sound := by
  refine Sound.foldl_queue (fun a => (index, a)) _ ?_
  intro x hx
  rcases Array.mem_or_eq_of_mem_setIfInBounds hx with hx | rfl
  · obtain ⟨hr, hxn, hxt⟩ := h x hx
    exact ⟨hr, hxn, Nat.le_trans hxt ht⟩
  · obtain ⟨blocks, hr⟩ := he
    exact ⟨⟨blocks, hr.step (.schedule e [] [])⟩, Nat.le_of_eq hn, Nat.le_refl _⟩

/-- **What is done to an engine from outside keeps every engine in a state of a run**, if it is done
in steps. -/
theorem Sound.act {α : Type} {f : Fleet σ} (h : f.Sound) (index : Nat) (fallback : α)
    (change : Engine σ → α × Engine σ) (hc : ∀ env e, OwnSteps env e (change e).2) :
    (f.act index fallback change).2.Sound := by
  unfold Fleet.act
  split
  · exact h
  · rename_i env e he
    obtain ⟨⟨blocks, hr⟩, hn, ht⟩ := h.engine? he
    have hs := hc env e
    have hs' : Steps env (fun _ _ => True) e (change e).2 := Steps.mono (fun _ _ _ => trivial) hs
    exact h.absorb index ⟨blocks, hr.steps hs'⟩ (hs.now_eq.1.trans hn) (ht ▸ hs.now_eq.2)

/-- **Turns keep every engine in a state of a run.** -/
theorem Sound.give {f : Fleet σ} (h : f.Sound) (index : Nat) (a : Actor) :
    (f.give index a).Sound := by
  unfold Fleet.give
  split
  · exact h
  · rename_i env e he
    obtain ⟨⟨blocks, hr⟩, hn, ht⟩ := h.engine? he
    have hs : OwnSteps env e (e.turn env a) := turn_steps e a
    have hs' : Steps env (fun _ _ => True) e (e.turn env a) :=
      Steps.mono (fun _ _ _ => trivial) hs
    exact h.absorb index ⟨blocks, hr.steps hs'⟩ (hs.now_eq.1.trans hn) (ht ▸ hs.now_eq.2)

theorem Sound.drainWithin (fuel : Nat) {f : Fleet σ} (h : f.Sound) :
    (Fleet.drainWithin fuel f).Sound := by
  induction fuel generalizing f with
  | zero => exact h
  | succ fuel ih =>
    unfold Fleet.drainWithin
    split
    · exact h
    · rename_i index a rest _
      exact ih (Sound.give (f := { f with ready := rest }) h index a)

theorem Sound.ring {f : Fleet σ} (h : f.Sound) : f.ring.Sound :=
  Sound.drainWithin _ (Sound.foldl_queue (fun x : Moment × Nat × Actor => (x.2.1, x.2.2)) _
    (f := { f with alarms := f.alarms.dropWhile fun x => x.1 ≤ f.now }) h)

/-- The clock of a fleet may move on at any time. -/
theorem Sound.later {f : Fleet σ} (h : f.Sound) {now : Moment} (hn : f.now ≤ now) :
    Sound { f with now } :=
  fun x hx => ⟨(h x hx).1, Nat.le_trans (h x hx).2.1 hn, (h x hx).2.2⟩

theorem Sound.advanceUntil (done : Fleet σ → Bool) (target : Moment) {f : Fleet σ} (h : f.Sound) :
    (Fleet.advanceUntil done target f).Sound := by
  induction f using Fleet.advanceUntil.induct done target with
  | case1 f hd =>
    rw [Fleet.advanceUntil, if_pos hd]
    exact h
  | case2 f hd ha ih =>
    rw [Fleet.advanceUntil, if_neg hd, dif_pos ha]
    exact ih (h.later (Nat.le_of_lt (now_lt_nextMoment ha))).ring
  | case3 f hd ha =>
    rw [Fleet.advanceUntil, if_neg hd, dif_neg ha]
    exact h

/-- A new engine starts its run. -/
theorem Sound.launch {f : Fleet σ} (h : f.Sound) (env : Environment σ) (blocks : Stage → Block)
    (ht : 1 ≤ f.nextTask) : (f.launch env blocks).2.Sound := by
  intro x hx
  rcases Array.mem_push.1 hx with hx | rfl
  · exact h x hx
  · exact ⟨⟨blocks, .start _⟩, Nat.zero_le _, ht⟩

end Fleet
end RpcFlow
