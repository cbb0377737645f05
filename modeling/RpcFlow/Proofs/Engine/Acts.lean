import RpcFlow.Proofs.Engine.Changes

/-!
# Acts of an engine

Some steps are an engine's own: its actors have something to do, and do it.  In the others something is
asked of the engine, or it is told something, or time passes; they can go on for ever.

* `Engine.Acts` — the steps in which an engine does something; `Engine.Waits` — those in which it does
  not, though others may.
* `Engine.step_iff` — a step is an act, a request for a task, or the engine waits.
* `Engine.Exhausted` — there is nothing left to do, however long the engine waits.
-/

set_option autoImplicit false

namespace RpcFlow
namespace Engine

variable {σ : Type}

/-- A step in which an engine does something of its own. -/
inductive Acts (env : Environment σ) : Engine σ → Engine σ → Prop
  | work (e : Engine σ) (c : Command) (rest : List Command) :
    e.cancelled = false → e.stopped = false → e.inbox = c :: rest →
      Acts env e ({ e with inbox := rest }.handle c)
  | stop (e : Engine σ) : e.cancelled = true → e.stopped = false → Acts env e e.stopWorker
  | take (e : Engine σ) (stage : Stage) (index : Nat) (rest : List Nat) :
    e.cancelled = false → (e.blocks stage).window = none → (e.loop stage).queue = index :: rest →
      Acts env e ((e.setLoop stage { e.loop stage with queue := rest }).handOne stage index)
  | openWindow (e : Engine σ) (stage : Stage) (window : Duration) (index : Nat) (rest : List Nat) :
    e.cancelled = false → (e.blocks stage).window = some window →
    (e.loop stage).gathering = none → (e.loop stage).queue = index :: rest →
      Acts env e
        (e.setLoop stage { queue := rest, gathering := some ⟨[index], e.now + window.ticks⟩ })
  | gather (e : Engine σ) (stage : Stage) (w : OpenWindow) (index : Nat) (rest : List Nat) :
    e.cancelled = false → (e.blocks stage).window ≠ none →
    (e.loop stage).gathering = some w → e.now < w.deadline → (e.loop stage).queue = index :: rest →
      Acts env e
        (e.setLoop stage { queue := rest, gathering := some { w with members := w.members ++ [index] } })
  | closeWindow (e : Engine σ) (stage : Stage) (w : OpenWindow) :
    e.cancelled = false → (e.blocks stage).window ≠ none →
    (e.loop stage).gathering = some w → w.deadline ≤ e.now →
      Acts env e
        ((e.setLoop stage { e.loop stage with gathering := none }).handWindow stage w.members)
  /-- There is something to forget. -/
  | forget (e : Engine σ) (stage : Stage) : e.cancelled = true → e.loop stage ≠ ⟨[], none⟩ →
      Acts env e (e.setLoop stage ⟨[], none⟩)
  | run (e : Engine σ) (index : Nat) (h : Handler) (r : Routine) :
    e.handlers[index]? = some h → h.state = .running r → Acts env e (e.instruct env index r)
  /-- The handler is running, and its supervisor does not wait for it yet. -/
  | watch (e : Engine σ) (index : Nat) (h : Handler) (r : Routine) :
    e.handlers[index]? = some h → h.state = .running r → h.watched = false →
      Acts env e (e.updateHandler index fun h => { h with watched := true })
  /-- The promise has not been used. -/
  | rescue (e : Engine σ) (index : Nat) (h : Handler) (ending : Ending) (error : CallError)
      (p : Promise) :
    e.handlers[index]? = some h → h.state = .ended ending → ending.error? = some error →
    p ∈ h.promises → e.isOpen p = true → Acts env e (e.complete p (.fail error)).2
  /-- There is an event that the subscriber has not passed. -/
  | read (e : Engine σ) (index : Nat) (s : Subscriber) :
    e.subscribers[index]? = some s → s.cancelled = false → e.cancelled = false →
    s.position < e.events.size → Acts env e (e.readBus index)

/-- A step in which an engine does nothing of its own, and is not asked for a task. -/
inductive Waits (drift : σ → σ → Prop) : Engine σ → Engine σ → Prop
  | schedule (e : Engine σ) (woken : List Actor) (alarms : List (Moment × Actor)) :
    Waits drift e { e with woken, alarms }
  | pass (e : Engine σ) (now : Moment) (nextTask : Nat) (world : σ) :
    e.now ≤ now → e.nextTask ≤ nextTask → drift e.world world →
      Waits drift e { e with now, nextTask, world }
  | report (e : Engine σ) (m : Message) : Waits drift e (e.report m)
  | subscribe (e : Engine σ) (method : String) (once : Bool) : Waits drift e (e.subscribe method once).2
  | unsubscribe (e : Engine σ) (index : Nat) : Waits drift e (e.unsubscribe index)
  | shutdown (e : Engine σ) : Waits drift e e.shutdown
  | setFlag (e : Engine σ) (s : Strategy) (key : String) (value : Option String) :
    Waits drift e (e.setFlag s key value)
  | listen (e : Engine σ) (board : HeaderBoard) (heard : List HeaderCall) :
    Waits drift e { e with board, heard }
  /-- A supervisor comes too late to wait for its handler. -/
  | watch (e : Engine σ) (index : Nat) (h : Handler) (ending : Ending) :
    e.handlers[index]? = some h → h.state = .ended ending →
      Waits drift e (e.updateHandler index fun h => { h with watched := true })

/-- Nothing is left to do: however long the engine waits, it does nothing of its own. -/
def Exhausted (env : Environment σ) (e : Engine σ) : Prop :=
  ∀ now, e.now ≤ now → ∀ e', ¬Acts env { e with now } e'

variable {env : Environment σ} {drift : σ → σ → Prop} {e e' : Engine σ}

theorem Acts.step (h : Acts env e e') : Step env drift e e' := by
  cases h with
  | work c rest hc hs hi => exact .work e c rest hc hs hi
  | stop hc hs => exact .stop e hc hs
  | take stage index rest hc hw hq => exact .take e stage index rest hc hw hq
  | openWindow stage window index rest hc hw hg hq => exact .openWindow e stage window index rest hc hw hg hq
  | gather stage w index rest hc hw hg hd hq => exact .gather e stage w index rest hc hw hg hd hq
  | closeWindow stage w hc hw hg hd => exact .closeWindow e stage w hc hw hg hd
  | forget stage hc => exact .forget e stage hc
  | run index h r hx hr => exact .run e index h r hx hr
  | watch index => exact .watch e index
  | rescue index h ending error p hx hst herr hp => exact .rescue e index h ending error p hx hst herr hp
  | read index => exact .read e index

theorem Waits.step (h : Waits drift e e') : Step env drift e e' := by
  cases h with
  | watch index => exact .watch e index
  | _ => constructor <;> assumption

/-! ## Steps that change nothing -/

theorem setLoop_self {stage : Stage} {l : Loop} (h : e.loop stage = l) : e.setLoop stage l = e := by
  rw [← h, setLoop, loop]
  simp

/-- A subscriber that has ended, or has passed every event, does not read. -/
theorem readBus_eq_self {index : Nat}
    (h : ∀ s, e.subscribers[index]? = some s → s.cancelled = false → e.cancelled = false →
      e.events.size ≤ s.position) : e.readBus index = e := by
  unfold readBus
  split
  · rfl
  · rename_i s hs
    split
    · rfl
    · rename_i hlive
      rw [Bool.not_eq_true, Bool.or_eq_false_iff] at hlive
      have hread := h s hs hlive.1 hlive.2
      have hreceive : e.receive s.position = (.nothing, s.position) := by
        rw [receive, if_neg (by omega), Array.getElem?_eq_none hread]
      have hsame : (e.updateSubscriber index fun x => { x with position := s.position }) = e := by
        rw [updateSubscriber, modify_eq_self]
        intro x hx
        rw [hs] at hx
        cases hx
        rfl
      simp only [hreceive, hsame]

/-- A step is an act of the engine or asks it for a task, or the engine waits. -/
theorem Step.acts_or_waits (hs : Step env drift e e') :
    Acts env e e' ∨ (∃ d, e' = (e.submit d).2) ∨ Waits drift e e' := by
  have hsame : Waits drift e e := .schedule e e.woken e.alarms
  cases hs with
  | schedule woken alarms => exact .inr (.inr (.schedule e woken alarms))
  | pass now nextTask world hn ht hw => exact .inr (.inr (.pass e now nextTask world hn ht hw))
  | report m => exact .inr (.inr (.report e m))
  | submit d => exact .inr (.inl ⟨d, rfl⟩)
  | subscribe method once => exact .inr (.inr (.subscribe e method once))
  | unsubscribe index => exact .inr (.inr (.unsubscribe e index))
  | shutdown => exact .inr (.inr (.shutdown e))
  | setFlag s key value => exact .inr (.inr (.setFlag e s key value))
  | listen board heard => exact .inr (.inr (.listen e board heard))
  | work c rest hc hs hi => exact .inl (.work e c rest hc hs hi)
  | stop hc hs => exact .inl (.stop e hc hs)
  | take stage index rest hc hw hq => exact .inl (.take e stage index rest hc hw hq)
  | openWindow stage window index rest hc hw hg hq =>
    exact .inl (.openWindow e stage window index rest hc hw hg hq)
  | gather stage w index rest hc hw hg hd hq => exact .inl (.gather e stage w index rest hc hw hg hd hq)
  | closeWindow stage w hc hw hg hd => exact .inl (.closeWindow e stage w hc hw hg hd)
  | run index h r hx hr => exact .inl (.run e index h r hx hr)
  | forget stage hc =>
    by_cases hl : e.loop stage = ⟨[], none⟩
    · rw [setLoop_self hl]
      exact .inr (.inr hsame)
    · exact .inl (.forget e stage hc hl)
  | watch index =>
    have hnone : (∀ h, e.handlers[index]? = some h → h.watched = true) →
        Waits drift e (e.updateHandler index fun h => { h with watched := true }) := by
      intro hw
      rw [updateHandler, modify_eq_self]
      · exact hsame
      · intro h hx
        rw [← hw h hx]
    cases hx : e.handlers[index]? with
    | none => exact .inr (.inr (hnone fun h hx' => by rw [hx] at hx'; cases hx'))
    | some h =>
      cases hst : h.state with
      | ended ending => exact .inr (.inr (.watch e index h ending hx hst))
      | running r =>
        cases hw : h.watched with
        | false => exact .inl (.watch e index h r hx hst hw)
        | true =>
          refine .inr (.inr (hnone fun h' hx' => ?_))
          rw [hx] at hx'
          cases hx'
          exact hw
  | rescue index h ending error p hx hst herr hp =>
    by_cases ho : e.isOpen p = true
    · exact .inl (.rescue e index h ending error p hx hst herr hp ho)
    · rw [complete_of_used (by simpa using ho)]
      exact .inr (.inr hsame)
  | read index =>
    by_cases hread : ∃ s, e.subscribers[index]? = some s ∧ s.cancelled = false ∧
        e.cancelled = false ∧ s.position < e.events.size
    · obtain ⟨s, hs, hlive, hc, hpos⟩ := hread
      exact .inl (.read e index s hs hlive hc hpos)
    · rw [readBus_eq_self]
      · exact .inr (.inr hsame)
      · intro s hs hlive hc
        exact Nat.le_of_not_lt fun hpos => hread ⟨s, hs, hlive, hc, hpos⟩

/-- **There are no other steps.** -/
theorem step_iff : Step env drift e e' ↔
    Acts env e e' ∨ (∃ d, e' = (e.submit d).2) ∨ Waits drift e e' := by
  refine ⟨Step.acts_or_waits, ?_⟩
  rintro (hact | ⟨d, rfl⟩ | hwaits)
  · exact hact.step
  · exact .submit e d
  · exact hwaits.step

end Engine
end RpcFlow
