import RpcFlow.Proofs.Engine.Diligence
import RpcFlow.Proofs.Engine.Schedule
import RpcFlow.Proofs.Engine.Trackers

/-!
# Every task finishes

A run comes to rest, and an engine that has nothing left to do has left nothing undone: its inbox and its
stages are empty, its handlers have ended, and their promises are used, since a handler that has forgotten
one has ended badly and leaves it to its supervisor.  So there is no work for any task, and every task has
finished.  Only tasks that were under way when the worker was lost to the time tracker, or was told to stop,
stay as they are.

* `Engine.Still` — the state of an engine that has nothing left to do; `Engine.Exhausted.still` and
  `Engine.Still.exhausted` say that there is no other.
* `Engine.Exhausted.registry`, `Engine.Exhausted.answered` — then every task has finished and every
  request is answered.
* `Engine.every_task_finishes` — **every run does finitely many things, and in the end every task has
  finished**; `Engine.some_tasks_stay` shows two runs in which one stays.
-/

set_option autoImplicit false

namespace RpcFlow

/-- Has a handler come to its end? -/
def HandlerState.isEnded : HandlerState → Bool
  | running _ => false
  | ended _ => true

theorem HandlerState.isEnded_iff {state : HandlerState} :
    state.isEnded = true ↔ ∃ ending, state = .ended ending := by
  cases state with
  | running r => simp [isEnded]
  | ended ending => simp [isEnded]

namespace Engine

open Filter

variable {σ : Type} {env : Environment σ} {drift : σ → σ → Prop} {blocks : Stage → Block} {world : σ}
  {window : Duration} {retries : Nat} {ds : List Descriptor} {e e' : Engine σ}

/-! ## Nothing left to do -/

/-- Inbox and stages are empty, handlers have ended and their promises are used, and subscribers have
read all there is to read. -/
structure Still (e : Engine σ) : Prop where
  inbox : e.inbox = []
  loops : ∀ s, e.loop s = ⟨[], none⟩
  ended : ∀ (index : Nat) (h : Handler), e.handlers[index]? = some h →
    ∃ ending, h.state = .ended ending
  closed : ∀ p ∈ e.issued, e.isOpen p = false
  passed : ∀ (index : Nat) (s : Subscriber), e.subscribers[index]? = some s → s.cancelled = false →
    e.events.size ≤ s.position

/-- Whether an engine is still can be computed. -/
theorem still_iff : Still e ↔ (e.inbox.isEmpty ∧ (∀ s ∈ Stage.all, e.loop s = ⟨[], none⟩)) ∧
    (∀ h ∈ e.handlers.toList, h.state.isEnded = true) ∧ (∀ p ∈ e.issued, e.isOpen p = false) ∧
    ∀ s ∈ e.subscribers.toList, s.cancelled = false → e.events.size ≤ s.position := by
  constructor
  · refine fun h => ⟨⟨List.isEmpty_iff.2 h.inbox, fun s _ => h.loops s⟩, fun x hx => ?_, h.closed,
      fun s hs => ?_⟩
    · obtain ⟨index, hx⟩ := List.getElem?_of_mem hx
      rw [Array.getElem?_toList] at hx
      exact HandlerState.isEnded_iff.2 (h.ended index x hx)
    · obtain ⟨index, hs⟩ := List.getElem?_of_mem hs
      rw [Array.getElem?_toList] at hs
      exact h.passed index s hs
  · rintro ⟨⟨hinbox, hloops⟩, hended, hclosed, hpassed⟩
    refine ⟨List.isEmpty_iff.1 hinbox, fun s => hloops s (Stage.mem_all s), fun index x hx => ?_,
      hclosed, fun index s hs => ?_⟩
    · exact HandlerState.isEnded_iff.1 (hended x (Array.mem_toList_iff.2 (Array.mem_of_getElem? hx)))
    · exact hpassed s (Array.mem_toList_iff.2 (Array.mem_of_getElem? hs))

instance : Decidable (Still e) := decidable_of_iff _ still_iff.symm

theorem Exhausted.not_acts (h : Exhausted env e) : ¬Acts env e e' := h e.now (Nat.le_refl _) e'

namespace Exhausted

section

variable (h : Exhausted env e) (he : Reachable env drift blocks e) (hc : e.cancelled = false)
include h

/-- A running handler would go on. -/
theorem exists_ending {index : Nat} {x : Handler} (hx : e.handlers[index]? = some x) :
    ∃ ending, x.state = .ended ending := by
  cases hst : x.state with
  | running r => exact absurd (.run e index x r hx hst) h.not_acts
  | ended ending => exact ⟨ending, rfl⟩

include he hc

theorem inbox_eq_nil : e.inbox = [] := by
  cases hi : e.inbox with
  | nil => rfl
  | cons c rest => exact absurd (.work e c rest hc (he.running hc) hi) h.not_acts

/-- A window would be closed when its time has come, and a task in a queue would be taken. -/
theorem loop_eq_empty (s : Stage) : e.loop s = ⟨[], none⟩ := by
  have hgathering : (e.loop s).gathering = none := by
    cases hg : (e.loop s).gathering with
    | none => rfl
    | some w =>
      have hw : (e.blocks s).window ≠ none := he.blocks_eq ▸ he.window_ne_none s w hg
      exact absurd (.closeWindow { e with now := max e.now w.deadline } s w hc hw hg
        (Nat.le_max_right _ _)) (h _ (Nat.le_max_left _ _) _)
  have hqueue : (e.loop s).queue = [] := by
    cases hq : (e.loop s).queue with
    | nil => rfl
    | cons i rest =>
      cases hw : (e.blocks s).window with
      | none => exact absurd (.take e s i rest hc hw hq) h.not_acts
      | some window => exact absurd (.openWindow e s window i rest hc hw hgathering hq) h.not_acts
  rw [← hqueue, ← hgathering]

/-- A supervisor would use a promise that its handler has left behind. -/
theorem isOpen_eq_false (hb : ∀ s, (blocks s).Proper) (ht : ∀ s, (blocks s).Thorough) {p : Promise}
    (hp : p ∈ e.issued) : e.isOpen p = false := by
  obtain ⟨ps, hps, hp⟩ := List.mem_flatten.1 hp
  obtain ⟨x, hx, rfl⟩ := List.mem_map.1 hps
  obtain ⟨index, hx⟩ := List.getElem?_of_mem hx
  rw [Array.getElem?_toList] at hx
  obtain ⟨ending, hst⟩ := h.exists_ending hx
  by_contra ho
  rw [Bool.not_eq_false] at ho
  have hbad : ending ≠ .ok := by
    have hd := he.diligent hb ht hc index x hx p hp ho
    rwa [Handler.Discharges, hst] at hd
  obtain ⟨error, herror⟩ : ∃ error, ending.error? = some error := by
    cases ending with
    | ok => exact absurd rfl hbad
    | failed error => exact ⟨error, rfl⟩
    | crashed message => exact ⟨_, rfl⟩
  exact h.not_acts (.rescue e index x ending error p hx hst herror hp ho)

/-- **An engine that has nothing left to do is still**, -/
theorem still (hb : ∀ s, (blocks s).Proper) (ht : ∀ s, (blocks s).Thorough) : Still e where
  inbox := h.inbox_eq_nil he hc
  loops := h.loop_eq_empty he hc
  ended _ _ := h.exists_ending
  closed _ := h.isOpen_eq_false he hc hb ht
  passed index s hs hlive := Nat.le_of_not_lt fun hlt =>
    h.not_acts (.read e index s hs hlive hc hlt)

end

end Exhausted

namespace Still

/-- and conversely. -/
theorem exhausted (h : Still e) (hc : e.cancelled = true → e.stopped = true) : Exhausted env e := by
  have hloop : ∀ s, e.loop s = ⟨[], none⟩ := h.loops
  intro now hnow e' hact
  cases hact with
  | work c rest _ _ hi => exact absurd (h.inbox.symm.trans hi) (List.cons_ne_nil _ _).symm
  | stop hc' hst => exact Bool.false_ne_true (hst.symm.trans (hc hc'))
  | take stage index rest _ _ hq =>
    exact absurd ((congrArg Loop.queue (hloop stage)).symm.trans hq) (List.cons_ne_nil _ _).symm
  | openWindow stage window index rest _ _ _ hq =>
    exact absurd ((congrArg Loop.queue (hloop stage)).symm.trans hq) (List.cons_ne_nil _ _).symm
  | gather stage w index rest _ _ hg =>
    exact absurd ((congrArg Loop.gathering (hloop stage)).symm.trans hg) (Option.some_ne_none _).symm
  | closeWindow stage w _ _ hg =>
    exact absurd ((congrArg Loop.gathering (hloop stage)).symm.trans hg) (Option.some_ne_none _).symm
  | forget stage _ hne => exact hne (hloop stage)
  | run index x r hx hr =>
    obtain ⟨ending, hst⟩ := h.ended index x hx
    exact HandlerState.noConfusion (hst.symm.trans hr)
  | watch index x r hx hr =>
    obtain ⟨ending, hst⟩ := h.ended index x hx
    exact HandlerState.noConfusion (hst.symm.trans hr)
  | rescue index x ending error p hx _ _ hp ho =>
    exact Bool.false_ne_true ((h.closed p (mem_issued hx hp)).symm.trans ho)
  | read index s hs hlive _ hpos => exact absurd (h.passed index s hs hlive) (Nat.not_le.2 hpos)

/-- Then there is nothing to do under any time tracker. -/
theorem exhaustedUnder (h : Still e) (hc : e.cancelled = true → e.stopped = true)
    (tracker : TimeTracker) : ExhaustedUnder env tracker e := by
  have hloop : ∀ s, e.loop s = ⟨[], none⟩ := h.loops
  intro now hnow e' hact
  cases hact with
  | quiet hact => exact h.exhausted hc now hnow e' hact
  | work c rest _ _ hi => exact absurd (h.inbox.symm.trans hi) (List.cons_ne_nil _ _).symm
  | hasten stage w _ _ _ hg =>
    exact absurd ((congrArg Loop.gathering (hloop stage)).symm.trans hg) (Option.some_ne_none _).symm

/-- There is no work for any task, -/
theorem stays_eq_zero (h : Still e) (i : Nat) (s : Stage) : e.stays i s = 0 := by
  have hissued : e.issued.countP (fun p => p.task == i && p.stage == s && e.isOpen p) = 0 :=
    List.countP_eq_zero.2 fun p hp => by simp [h.closed p hp]
  rw [stays, h.loops s, hissued, leaving, h.inbox]
  rfl

/-- so every task has finished. -/
theorem isFinished (h : Still e) (hl : Ledger e) {i : Nat} {t : Task} (ht : e.tasks[i]? = some t) :
    t.isFinished = true := by
  refine (hl.finished i t ht).2 (List.eq_nil_iff_forall_not_mem.2 fun s hs => ?_)
  rw [← holding_of_some ht, ← List.count_pos_iff, hl.balance, h.stays_eq_zero] at hs
  exact Nat.lt_irrefl _ hs

end Still

namespace Exhausted

variable (h : Exhausted env e) (he : Reachable env drift blocks e) (hb : ∀ s, (blocks s).Proper)
  (ht : ∀ s, (blocks s).Thorough)
include h he hb ht

theorem registry (hc : e.cancelled = false) : e.registry = [] := by
  rw [(he.closings hb hc).registry]
  refine List.filter_eq_nil_iff.2 fun i hi => ?_
  have ht' := Array.getElem?_eq_getElem (List.mem_range.1 hi)
  rw [isLive_of_some ht', (h.still he hc hb ht).isFinished (he.ledger hb hc) ht']
  exact Bool.false_ne_true

/-- A task that has finished has an answer for its callers, and a request that waits would be seen by the
worker; an engine that was told to stop has stopped. -/
theorem answered {r : Nat} (hr : r < e.replies.size) : ∃ x, e.answer r = .item x := by
  by_cases hc : e.cancelled = true
  · have hstop : e.stopped = true := by
      by_contra hrun
      exact h.not_acts (.stop e hc (by simpa using hrun))
    obtain ⟨e₀, he₀, hc₀, -, hsteps⟩ := he.exists_stop hstop
    exact ((AtRest.stopWorker he₀ hb hc₀).steps hsteps).exists_answer he₀.desk hr
  · rw [Bool.not_eq_true] at hc
    have hget := Array.getElem?_eq_getElem hr
    cases hx : e.replies[r] with
    | waiting =>
      obtain ⟨d, hd⟩ := he.attended r (by rw [hget, hx])
      rw [h.inbox_eq_nil he hc] at hd
      exact absurd hd List.not_mem_nil
    | refused => exact ⟨_, by rw [answer, reply, hget, hx]; rfl⟩
    | task i =>
      have hreply : e.replies[r]? = some (.task i) := by rw [hget, hx]
      have ht' := Array.getElem?_eq_getElem (he.desk.answers r i hreply)
      have hdone := (h.still he hc hb ht).isFinished (he.ledger hb hc) ht'
      have hclosed := ((he.closings hb hc).closed i _ ht').trans hdone
      exact ⟨_, (answer_of_task hreply ht').trans (Task.outcome_of_completed hclosed)⟩

end Exhausted

/-! ## The result -/

/-- **Every task finishes.**  Whatever the outside world answers, whatever the time tracker does, whatever
is done to an engine from outside, and whoever has his turn when: if finitely many tasks are asked for, all
but finitely many steps of a run are such as the engine takes while it waits.  When it has nothing left to
do, however long it waits, and all calls of the time tracker have returned, every request is answered, and
every task has left the registry, unless the engine was told to stop.  If a call has crashed, those who
have no answer wait for tasks that are still registered. -/
theorem every_task_finishes (hds : ∀ d ∈ ds, d.Permitted) (tracker : TimeTracker) :
    (∀ run : ℕ → Engine σ,
      UnfoldsUnder env drift (Stages.block window retries) tracker world ds run →
        {n | ¬Waits drift (run n) (run (n + 1))}.Finite) ∧
    ∀ e : Engine σ, RunsUnder env drift (Stages.block window retries) tracker world ds e →
      ExhaustedUnder env tracker e →
        (tracker.Returns e.finishes →
          (e.cancelled = false → e.registry = []) ∧ ∀ r < ds.length, ∃ x, e.answer r = .item x) ∧
        ∀ r < ds.length, (∃ x, e.answer r = .item x) ∨ ∃ i ∈ e.registry, e.reply r = .task i := by
  have hb := Stages.proper_block window retries
  have ht := Stages.thorough_block window retries
  refine ⟨fun run hrun => ?_, fun e he h => ?_⟩
  · obtain ⟨N, hN⟩ := eventually_atTop.1 (hrun.eventually_waits hds)
    exact (Set.finite_lt_nat N).subset fun n hnot => Nat.lt_of_not_le fun hle => hnot (hN n hle)
  · have hsize : ∀ r < ds.length, r < e.replies.size := fun r hr => he.size_replies ▸ hr
    rcases he.cases hb with ⟨-, hruns⟩ | ⟨hnot, hlost⟩
    · have hanswered : ∀ r < ds.length, ∃ x, e.answer r = .item x := fun r hr =>
        h.exhausted.answered hruns.reachable hb ht (hsize r hr)
      exact ⟨fun _ => ⟨h.exhausted.registry hruns.reachable hb ht, hanswered⟩,
        fun r hr => .inl (hanswered r hr)⟩
    · exact ⟨fun hret => absurd hret hnot, fun r hr => hlost.answered (hsize r hr)⟩

/-! ## Runs to the end -/

/-- A run goes on along a schedule that asks for nothing more. -/
theorem Runs.unfolds {env : Environment σ} (h : Runs env Eq blocks world ds e) {schedule : List Occasion}
    (hsize : (e.play env schedule).replies.size = ds.length) :
    Unfolds env Eq blocks world ds fun n => e.play env (schedule.take n) where
  step n := by
    rw [List.take_add_one, play_append]
    cases schedule[n]? with
    | none => exact .stutter _
    | some a => exact act_step env _ a
  asked n := by
    refine ⟨ds, List.prefix_rfl, h.steps (steps_play env e (schedule.take n)) ?_⟩
    have hle := (steps_play env e (schedule.take n)).size_replies_le
    have hle' := (steps_play_take env e schedule n).size_replies_le
    have hds := h.size_replies
    omega

/-- So it does under a time tracker none of whose calls crashes. -/
theorem Runs.unfoldsUnder {env : Environment σ} (h : Runs env Eq blocks world ds e)
    (tracker : TimeTracker) (schedule : List Occasion)
    (hsize : (e.play env schedule).replies.size = ds.length)
    (hret : tracker.Returns (e.play env schedule).finishes) :
    UnfoldsUnder env Eq blocks tracker world ds (fun n => e.play env (schedule.take n)) ∧
      RunsUnder env Eq blocks tracker world ds (e.play env schedule) := by
  have hend := h.steps (steps_play env e schedule) (hsize.trans h.size_replies.symm)
  exact ⟨(h.unfolds hsize).under fun n => (steps_play_take env e schedule n).returns hret,
    hend.under hret⟩

/-- A request for another transport than that of `ping`. -/
def pong : Descriptor := { ping with method := "pong", transport := "tube" }

theorem permitted_ping_pong : ∀ d ∈ [ping, pong], d.Permitted := by
  have hfallback : ∃ (presets : List Preset) (cell : Nat), (∃ p ∈ presets, p.reachesNet = true) ∧
      Strategy.fallback 0 = Strategy.merge (presets.map Preset.table) cell :=
    ⟨[.noCache], 0, ⟨.noCache, List.mem_singleton_self _, rfl⟩, rfl⟩
  intro d hd
  simp only [List.mem_cons, List.not_mem_nil, or_false] at hd
  rcases hd with rfl | rfl
  · exact ⟨hfallback, Nat.le_refl 1⟩
  · exact ⟨hfallback, Nat.le_refl 1⟩

/-- An engine that was asked for both. -/
def pingedPonged : Engine Unit :=
  (((start (Stages.block (.ofMillis 100) 1) ()).submit ping).2.submit pong).2

theorem runs_pingedPonged :
    Runs .crashing Eq (Stages.block (.ofMillis 100) 1) () [ping, pong] pingedPonged :=
  (Runs.start.request ping).request pong

/-- Two tasks wait in one window for different transports, so that one of them is put off until the next
window.  Both calls crash, and the supervisors report it. -/
def pingAndPong : List Occasion :=
  [.work, .work, .take .initial, .take .initial, .run 0, .run 0, .run 1, .run 1, .work, .work,
    .openWindow .getFromNet, .gather .getFromNet, .pass 100 3, .closeWindow .getFromNet, .run 2, .run 2,
    .run 2, .run 2, .run 2, .work, .rescue 2 0, .openWindow .getFromNet, .pass 200 3,
    .closeWindow .getFromNet, .run 3, .run 3, .run 3, .rescue 3 0, .work, .work, .take .resolveError,
    .take .resolveError, .run 4, .run 4, .run 4, .run 5, .run 5, .run 5, .work, .work,
    .take .deliverError, .take .deliverError, .run 6, .run 6, .run 6, .run 6, .run 7, .run 7, .run 7,
    .run 7, .work, .work]

seal TimeTracker.Returns in
/-- The time tracker would crash if it was told of a third task. -/
theorem every_task_finishes_apart :
    let tracker : TimeTracker := ⟨fun _ told => told.length == 2⟩
    let run : ℕ → Engine Unit := fun n => pingedPonged.play .crashing (pingAndPong.take n)
    (∀ d ∈ [ping, pong], d.Permitted) ∧
      UnfoldsUnder .crashing Eq (Stages.block (.ofMillis 100) 1) tracker () [ping, pong] run ∧
      Acts .crashing (run 0) (run 1) ∧ {n | ¬Waits Eq (run n) (run (n + 1))}.Finite ∧
      RunsUnder .crashing Eq (Stages.block (.ofMillis 100) 1) tracker () [ping, pong]
        (pingedPonged.play .crashing pingAndPong) ∧
      ExhaustedUnder .crashing tracker (pingedPonged.play .crashing pingAndPong) ∧
      tracker.Returns (pingedPonged.play .crashing pingAndPong).finishes ∧
      (pingedPonged.play .crashing pingAndPong).cancelled = false ∧
      (pingedPonged.play .crashing pingAndPong).registry = [] ∧
      ∀ r < 2, ∃ x, (pingedPonged.play .crashing pingAndPong).answer r = .item x := by
  intro tracker run
  have hsize : (pingedPonged.play .crashing pingAndPong).replies.size = 2 := by decide +kernel
  have hret : tracker.Returns (pingedPonged.play .crashing pingAndPong).finishes := by decide +kernel
  have hstill : Still (pingedPonged.play .crashing pingAndPong) := by decide +kernel
  have hlive : (pingedPonged.play .crashing pingAndPong).cancelled = false := by decide +kernel
  obtain ⟨hunfolds, hruns⟩ := runs_pingedPonged.unfoldsUnder tracker pingAndPong hsize hret
  have hexhausted : ExhaustedUnder .crashing tracker (pingedPonged.play .crashing pingAndPong) :=
    hstill.exhaustedUnder (fun hc => absurd (hlive.symm.trans hc) Bool.false_ne_true) tracker
  obtain ⟨hfinite, hdone⟩ :=
    @every_task_finishes Unit .crashing Eq () (.ofMillis 100) 1 _ permitted_ping_pong tracker
  obtain ⟨hregistry, hanswered⟩ := (hdone _ hruns hexhausted).1 hret
  exact ⟨permitted_ping_pong, hunfolds, .work pingedPonged _ _ rfl rfl rfl, hfinite run hunfolds, hruns,
    hexhausted, hret, hlive, hregistry hlive, hanswered⟩

/-- The worker works off the command that came first, under a time tracker. -/
def serveUnder (tracker : TimeTracker) (e : Engine σ) : Engine σ :=
  match e.inbox with
  | [] => e
  | c :: rest => { e with inbox := rest }.handleUnder tracker c

theorem RunsUnder.serve {tracker : TimeTracker} (h : RunsUnder env drift blocks tracker world ds e)
    (hc : e.cancelled = false) (hst : e.stopped = false)
    (hsize : (e.serveUnder tracker).replies.size = e.replies.size) :
    RunsUnder env drift blocks tracker world ds (e.serveUnder tracker) := by
  unfold serveUnder at hsize ⊢
  split at hsize
  · rename_i hi
    exact h
  · rename_i c rest hi
    exact h.step (.work e c rest hc hst hi) hsize

/-- One task comes to its end while the other is in the first stage. -/
def pingBeforePong : List Occasion :=
  [.work, .work, .take .initial, .run 0, .run 0, .work, .openWindow .getFromNet, .pass 100 3,
    .closeWindow .getFromNet, .run 1, .run 1, .run 1, .rescue 1 0, .work, .take .resolveError, .run 2,
    .run 2, .run 2, .work, .take .deliverError, .run 3, .run 3, .run 3, .run 3, .take .initial, .run 4,
    .run 4]

/-- A time tracker that crashes when it is told of the first task leaves the second behind, and so does an
engine that is told to stop. -/
theorem some_tasks_stay :
    let tracker : TimeTracker := ⟨fun _ _ => true⟩
    let lost : Engine Unit := (pingedPonged.play .crashing pingBeforePong).serveUnder tracker
    let ended : Engine Unit := ((start (Stages.block (.ofMillis 100) 1) ()).submit ping).2.play .crashing
      [.work, .shutdown, .stop, .forget .initial]
    (∀ d ∈ [ping, pong], d.Permitted) ∧
      (RunsUnder .crashing Eq (Stages.block (.ofMillis 100) 1) tracker () [ping, pong] lost ∧
        ExhaustedUnder .crashing tracker lost ∧ lost.cancelled = false ∧ lost.registry = [1] ∧
        lost.answer 1 = .waiting) ∧
      RunsUnder .crashing Eq (Stages.block (.ofMillis 100) 1) .steady () [ping] ended ∧
        ExhaustedUnder .crashing .steady ended ∧ ended.registry = [0] := by
  intro tracker lost ended
  have hbefore : RunsUnder .crashing Eq (Stages.block (.ofMillis 100) 1) tracker () [ping, pong]
      (pingedPonged.play .crashing pingBeforePong) :=
    (runs_pingedPonged.unfoldsUnder tracker pingBeforePong (by decide +kernel) (by decide +kernel)).2
  have hlost := hbefore.serve (by decide +kernel) (by decide +kernel) (by decide +kernel)
  have hstill : Still lost := by decide +kernel
  have hlive : lost.cancelled = false := by decide +kernel
  have hended : Runs .crashing Eq (Stages.block (.ofMillis 100) 1) () [ping] ended :=
    (Runs.start.request ping).steps (steps_play .crashing _ _) (by decide +kernel)
  have hstill' : Still ended := by decide +kernel
  have hstopped : ended.stopped = true := by decide +kernel
  exact ⟨permitted_ping_pong,
    ⟨hlost, hstill.exhaustedUnder (fun hc => absurd (hlive.symm.trans hc) Bool.false_ne_true) tracker,
      hlive, by decide +kernel, by decide +kernel⟩,
    hended.under (TimeTracker.returns_steady _), hstill'.exhaustedUnder (fun _ => hstopped) .steady,
    by decide +kernel⟩

end Engine
end RpcFlow
