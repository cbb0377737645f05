import RpcFlow.Proofs.Engine.Step

/-!
# Schedules

Who acts when is up to a scheduler, and what is asked of an engine, and when, is up to its callers.  A
schedule fixes both: it is a list of occasions, on each of which one party acts.  With the outside world
given, a schedule determines a run, so that two runs can be compared that differ in the world alone.

* `Occasion` — what may happen next; `Engine.act` — what an engine makes of it.
* `Engine.play` — the run of a schedule.
* `Engine.steps_iff_play` — the runs of schedules are all runs in which the world changes only by
  instructions of handlers.
-/

set_option autoImplicit false

namespace RpcFlow

/-- What may happen next. -/
inductive Occasion where
  /-- Actors ask for turns or are given them. -/
  | schedule (woken : List Actor) (alarms : List (Moment × Actor))
  /-- Time passes and other engines create tasks. -/
  | pass (now : Moment) (nextTask : Nat)
  | report (m : Message)
  | submit (d : Descriptor)
  | subscribe (method : String) (once : Bool)
  | unsubscribe (index : Nat)
  | shutdown
  | setFlag (s : Strategy) (key : String) (value : Option String)
  | listen (board : HeaderBoard) (heard : List HeaderCall)
  | work
  | stop
  | take (stage : Stage)
  | openWindow (stage : Stage)
  | gather (stage : Stage)
  | closeWindow (stage : Stage)
  | forget (stage : Stage)
  | run (index : Nat)
  | watch (index : Nat)
  /-- The supervisor of a handler fails the promise at a place. -/
  | rescue (index place : Nat)
  | read (index : Nat)

/-- The error with which a handler has ended, and the promise at a place that it leaves to its
supervisor. -/
def Handler.leaves? (h : Handler) (place : Nat) : Option (CallError × Promise) :=
  match h.state with
  | .running _ => none
  | .ended ending => ending.error?.bind fun error => h.promises[place]?.map fun p => (error, p)

theorem Handler.leaves?_eq_some {h : Handler} {place : Nat} {error : CallError} {p : Promise} :
    h.leaves? place = some (error, p) ↔ ∃ ending, h.state = .ended ending ∧
      ending.error? = some error ∧ h.promises[place]? = some p := by
  unfold leaves?
  split
  · rename_i r hst
    simp [hst]
  · rename_i ending hst
    simp [hst, Option.bind_eq_some_iff]

namespace Engine

variable {σ : Type}

/-- The worker works off the command that came first, if there is one and the worker has not been told
to stop. -/
def serve (e : Engine σ) : Engine σ :=
  match e.cancelled, e.stopped, e.inbox with
  | false, false, c :: rest => { e with inbox := rest }.handle c
  | _, _, _ => e

/-- What an engine makes of an occasion; it stays as it is if nothing can be done. -/
def act (env : Environment σ) (e : Engine σ) : Occasion → Engine σ
  | .schedule woken alarms => { e with woken, alarms }
  | .pass now nextTask =>
    if e.now ≤ now ∧ e.nextTask ≤ nextTask then { e with now, nextTask } else e
  | .report m => e.report m
  | .submit d => (e.submit d).2
  | .subscribe method once => (e.subscribe method once).2
  | .unsubscribe index => e.unsubscribe index
  | .shutdown => e.shutdown
  | .setFlag s key value => e.setFlag s key value
  | .listen board heard => { e with board, heard }
  | .work => e.serve
  | .stop => if e.cancelled = true ∧ e.stopped = false then e.stopWorker else e
  | .take stage =>
    match e.cancelled, (e.blocks stage).window, (e.loop stage).queue with
    | false, none, index :: rest =>
      (e.setLoop stage { e.loop stage with queue := rest }).handOne stage index
    | _, _, _ => e
  | .openWindow stage =>
    match e.cancelled, (e.blocks stage).window, (e.loop stage).gathering, (e.loop stage).queue with
    | false, some window, none, index :: rest =>
      e.setLoop stage { queue := rest, gathering := some ⟨[index], e.now + window.ticks⟩ }
    | _, _, _, _ => e
  | .gather stage =>
    match e.cancelled, (e.blocks stage).window, (e.loop stage).gathering, (e.loop stage).queue with
    | false, some _, some w, index :: rest =>
      if e.now < w.deadline then
        e.setLoop stage { queue := rest, gathering := some { w with members := w.members ++ [index] } }
      else e
    | _, _, _, _ => e
  | .closeWindow stage =>
    match e.cancelled, (e.blocks stage).window, (e.loop stage).gathering with
    | false, some _, some w =>
      if w.deadline ≤ e.now then
        (e.setLoop stage { e.loop stage with gathering := none }).handWindow stage w.members
      else e
    | _, _, _ => e
  | .forget stage => if e.cancelled then e.setLoop stage ⟨[], none⟩ else e
  | .run index =>
    match e.handlers[index]?.map Handler.state with
    | some (.running r) => e.instruct env index r
    | _ => e
  | .watch index => e.updateHandler index fun h => { h with watched := true }
  | .rescue index place =>
    match e.handlers[index]?.bind fun h => h.leaves? place with
    | some (error, p) => (e.complete p (.fail error)).2
    | none => e
  | .read index => e.readBus index

/-- The run of a schedule. -/
def play (env : Environment σ) (e : Engine σ) (schedule : List Occasion) : Engine σ :=
  schedule.foldl (act env) e

variable {env : Environment σ} {e e' : Engine σ}

theorem play_append (env : Environment σ) (e : Engine σ) (schedule later : List Occasion) :
    e.play env (schedule ++ later) = (e.play env schedule).play env later :=
  List.foldl_append

/-- An engine may stay as it is. -/
theorem Step.stutter {drift : σ → σ → Prop} (e : Engine σ) : Step env drift e e :=
  .schedule e e.woken e.alarms

/-- An occasion is taken in one step, or passes. -/
theorem act_step (env : Environment σ) (e : Engine σ) (a : Occasion) :
    Step env Eq e (e.act env a) := by
  cases a with
  | schedule woken alarms => exact .schedule e woken alarms
  | pass now nextTask =>
    simp only [act]
    split
    · rename_i h
      exact .pass e now nextTask e.world h.1 h.2 rfl
    · exact .stutter e
  | report m => exact .report e m
  | submit d => exact .submit e d
  | subscribe method once => exact .subscribe e method once
  | unsubscribe index => exact .unsubscribe e index
  | shutdown => exact .shutdown e
  | setFlag s key value => exact .setFlag e s key value
  | listen board heard => exact .listen e board heard
  | work =>
    simp only [act, serve]
    split
    · rename_i c rest hc hs hi
      exact .work e c rest hc hs hi
    · exact .stutter e
  | stop =>
    simp only [act]
    split
    · rename_i h
      exact .stop e h.1 h.2
    · exact .stutter e
  | take stage =>
    simp only [act]
    split
    · rename_i index rest hc hw hq
      exact .take e stage index rest hc hw hq
    · exact .stutter e
  | openWindow stage =>
    simp only [act]
    split
    · rename_i window index rest hc hw hg hq
      exact .openWindow e stage window index rest hc hw hg hq
    · exact .stutter e
  | gather stage =>
    simp only [act]
    split
    · rename_i window w index rest hc hw hg hq
      split
      · rename_i hlt
        exact .gather e stage w index rest hc (by rw [hw]; simp) hg hlt hq
      · exact .stutter e
    · exact .stutter e
  | closeWindow stage =>
    simp only [act]
    split
    · rename_i window w hc hw hg
      split
      · rename_i hle
        exact .closeWindow e stage w hc (by rw [hw]; simp) hg hle
      · exact .stutter e
    · exact .stutter e
  | forget stage =>
    simp only [act]
    split
    · rename_i hc
      exact .forget e stage hc
    · exact .stutter e
  | run index =>
    simp only [act]
    split
    · rename_i r h
      obtain ⟨x, hx, hr⟩ := Option.map_eq_some_iff.1 h
      exact .run e index x r hx hr
    · exact .stutter e
  | watch index => exact .watch e index
  | rescue index place =>
    simp only [act]
    split
    · rename_i error p h
      obtain ⟨x, hx, hleaves⟩ := Option.bind_eq_some_iff.1 h
      obtain ⟨ending, hst, herr, hp⟩ := Handler.leaves?_eq_some.1 hleaves
      exact .rescue e index x ending error p hx hst herr (List.mem_of_getElem? hp)
    · exact .stutter e
  | read index => exact .read e index

/-- Every step in which the world does not change by itself is taken on an occasion. -/
theorem Step.exists_occasion (hs : Step env Eq e e') : ∃ a, e' = e.act env a := by
  cases hs with
  | schedule woken alarms => exact ⟨.schedule woken alarms, rfl⟩
  | pass now nextTask world hn ht hw =>
    exact ⟨.pass now nextTask, by simp only [act, hn, ht, and_self, if_true, ← hw]⟩
  | report m => exact ⟨.report m, rfl⟩
  | submit d => exact ⟨.submit d, rfl⟩
  | subscribe method once => exact ⟨.subscribe method once, rfl⟩
  | unsubscribe index => exact ⟨.unsubscribe index, rfl⟩
  | shutdown => exact ⟨.shutdown, rfl⟩
  | setFlag s key value => exact ⟨.setFlag s key value, rfl⟩
  | listen board heard => exact ⟨.listen board heard, rfl⟩
  | work c rest hc hst hi => exact ⟨.work, by simp only [act, serve, hc, hst, hi]⟩
  | stop hc hst => exact ⟨.stop, by simp only [act, hc, hst, and_self, if_true]⟩
  | take stage index rest hc hw hq => exact ⟨.take stage, by simp only [act, hc, hw, hq]⟩
  | openWindow stage window index rest hc hw hg hq =>
    exact ⟨.openWindow stage, by simp only [act, hc, hw, hg, hq]⟩
  | gather stage w index rest hc hw hg hlt hq =>
    obtain ⟨window, hwindow⟩ := Option.ne_none_iff_exists'.1 hw
    exact ⟨.gather stage, by simp only [act, hc, hwindow, hg, hq, hlt, if_true]⟩
  | closeWindow stage w hc hw hg hle =>
    obtain ⟨window, hwindow⟩ := Option.ne_none_iff_exists'.1 hw
    exact ⟨.closeWindow stage, by simp only [act, hc, hwindow, hg, hle, if_true]⟩
  | forget stage hc => exact ⟨.forget stage, by simp only [act, hc, if_true]⟩
  | run index x r hx hr => exact ⟨.run index, by simp only [act, hx, Option.map_some, hr]⟩
  | watch index => exact ⟨.watch index, rfl⟩
  | rescue index x ending error p hx hst herr hp =>
    obtain ⟨place, hplace⟩ := List.getElem?_of_mem hp
    have hleaves : x.leaves? place = some (error, p) :=
      Handler.leaves?_eq_some.2 ⟨ending, hst, herr, hplace⟩
    exact ⟨.rescue index place, by simp only [act, hx, Option.bind_some, hleaves]⟩
  | read index => exact ⟨.read index, rfl⟩

/-- **The runs of schedules** are the runs in which the world changes only by instructions. -/
theorem steps_iff_play : Steps env Eq e e' ↔ ∃ schedule, e' = e.play env schedule := by
  constructor
  · intro h
    induction h with
    | refl => exact ⟨[], rfl⟩
    | tail _ hs ih =>
      obtain ⟨schedule, rfl⟩ := ih
      obtain ⟨a, rfl⟩ := hs.exists_occasion
      exact ⟨schedule ++ [a], (play_append env e schedule [a]).symm⟩
  · rintro ⟨schedule, rfl⟩
    induction schedule generalizing e with
    | nil => exact .refl
    | cons a schedule ih => exact .head (act_step env e a) ih

theorem steps_play (env : Environment σ) (e : Engine σ) (schedule : List Occasion) :
    Steps env Eq e (e.play env schedule) :=
  steps_iff_play.2 ⟨schedule, rfl⟩

/-- A run goes on from where it was. -/
theorem steps_play_take (env : Environment σ) (e : Engine σ) (schedule : List Occasion) (n : Nat) :
    Steps env Eq (e.play env (schedule.take n)) (e.play env schedule) :=
  steps_iff_play.2 ⟨schedule.drop n, by rw [← play_append, List.take_append_drop]⟩

end Engine
end RpcFlow
