import RpcFlow.Proofs.Engine.Ebbing

/-!
# Time trackers that crash

The worker tells the time tracker itself that a task has finished, so a call that crashes is the worker's
end.  Nobody moves tasks then; requests are turned away, the stages hand out what they have, and handlers
go on to their ends.  Until then the time tracker makes no difference.

* `TimeTracker.Returns` — every call of a time tracker has returned.
* `Engine.Tracked` — what engines do under a time tracker; `Engine.RunsUnder`, `Engine.UnfoldsUnder` and
  `Engine.ExhaustedUnder` are their runs, their infinite runs and their ends.
* `Engine.Lost` — what is left when the worker is lost, and what all later steps keep.
* `Engine.RunsUnder.cases` — **a run goes as it would under a time tracker that returns, or the worker is
  lost**.
* `Engine.UnfoldsUnder.eventually_waits` — an infinite run comes to rest, whatever the time tracker does.
-/

set_option autoImplicit false

namespace RpcFlow

/-- Every call that a time tracker was told of has returned. -/
def TimeTracker.Returns (tracker : TimeTracker) : List Finish → Prop
  | [] => True
  | finish :: told => tracker.crashes finish told = false ∧ tracker.Returns told

instance TimeTracker.decidableReturns (tracker : TimeTracker) :
    (told : List Finish) → Decidable (tracker.Returns told)
  | [] => .isTrue trivial
  | finish :: told =>
    have := decidableReturns tracker told
    inferInstanceAs (Decidable (tracker.crashes finish told = false ∧ tracker.Returns told))

theorem TimeTracker.returns_steady (told : List Finish) : steady.Returns told := by
  induction told with
  | nil => trivial
  | cons finish told ih => exact ⟨rfl, ih⟩

namespace Engine

open Filter

variable {σ : Type} {env : Environment σ} {drift : σ → σ → Prop} {blocks : Stage → Block}
  {tracker : TimeTracker} {e e' : Engine σ}

/-! ## What a call does to the worker -/

theorem loseWorker_eq (e : Engine σ) :
    e.loseWorker = { e with inbox := [], replies := e.loseWorker.replies, stopped := true } := by
  simp only [loseWorker]
  rw [foldl_refuse_eq]

/-- A worker that is lost turns away the requests that wait. -/
theorem replies_loseWorker (e : Engine σ) (r : Nat) :
    e.loseWorker.replies[r]? =
      if r ∈ e.inbox.filterMap Command.slot? then e.replies[r]?.map fun _ => .refused
      else e.replies[r]? :=
  replies_foldl_refuse e.inbox e r

/-- The time tracker is told of a task that is retired, and the call returns or the worker is lost. -/
theorem retire_cases (tracker : TimeTracker) {i : Nat} {t : Task} (ht : e.tasks[i]? = some t) :
    ∃ finish, (e.retire .steady i).finishes = finish :: e.finishes ∧
      (tracker.crashes finish e.finishes = false ∧ e.retire tracker i = e.retire .steady i ∨
        tracker.crashes finish e.finishes = true ∧
          e.retire tracker i = { e.retire .steady i with journal := e.journal }.loseWorker) := by
  refine ⟨_, by rw [retire_of_some ht], ?_⟩
  simp only [retire, ht]
  split
  · rename_i hcrash
    exact .inr ⟨hcrash, rfl⟩
  · rename_i hret
    exact .inl ⟨Bool.eq_false_of_not_eq_true hret, rfl⟩

/-- The worker does not call the time tracker, or it calls it once, and the call returns or the worker is
lost. -/
theorem handleUnder_cases (tracker : TimeTracker) (e : Engine σ) (c : Command) :
    (e.handle c).finishes = e.finishes ∧ e.handleUnder tracker c = e.handle c ∨
      ∃ finish, (e.handle c).finishes = finish :: e.finishes ∧
        (tracker.crashes finish e.finishes = false ∧ e.handleUnder tracker c = e.handle c ∨
          tracker.crashes finish e.finishes = true ∧
            e.handleUnder tracker c = { e.handle c with journal := e.journal }.loseWorker) := by
  cases c with
  | submit d reply =>
    refine .inl ⟨?_, rfl⟩
    rcases accept_cases e d with ⟨i, t, -, -, h⟩ | ⟨-, h⟩
    · simp only [handle, h]
      rfl
    · simp only [handle, h]
      exact finishes_create e d
  | transition i source verdict =>
    cases ht : e.tasks[i]? with
    | none => exact .inl (by simp only [handle, handleUnder, place, placeUnder, ht, and_self])
    | some t =>
      have hqueued := foldl_enqueue_eq
        (e.updateTask i fun _ => (t.moveTo (some source) verdict.next).1) i verdict.next
      simp only [handle, handleUnder, place, placeUnder, ht]
      generalize verdict.next.foldl (fun e s => e.enqueue i s)
        (e.updateTask i fun _ => (t.moveTo (some source) verdict.next).1) = e₁ at hqueued ⊢
      have hfin : e₁.finishes = e.finishes := by rw [hqueued]; rfl
      have hjournal : e₁.journal = e.journal := by rw [hqueued]; rfl
      have hi : e₁.tasks[i]? = some (t.moveTo (some source) verdict.next).1 := by
        rw [hqueued]
        simp [tasks_updateTask, ht]
      split
      · exact .inr (hfin ▸ hjournal ▸ retire_cases tracker hi)
      · exact .inl ⟨hfin, rfl⟩

/-- The time tracker is called only when the worker works. -/
theorem Step.finishes_cases (hs : Step env drift e e') : e'.finishes = e.finishes ∨
    ∃ c rest, e.cancelled = false ∧ e.stopped = false ∧ e.inbox = c :: rest ∧
      e' = { e with inbox := rest }.handle c := by
  cases hs with
  | submit d => exact .inl (by rw [submit_eq])
  | shutdown => exact .inl (by rw [shutdown_eq])
  | work c rest hc hs hi => exact .inr ⟨c, rest, hc, hs, hi, rfl⟩
  | stop => exact .inl (by rw [stopWorker_eq])
  | take stage index rest => exact .inl (by rw [handOne_frame]; rfl)
  | closeWindow stage w => exact .inl (by rw [handWindow_eq]; rfl)
  | run index x r => exact .inl (by rw [instruct_eq])
  | rescue index x ending error p => exact .inl (by rw [complete_eq])
  | read index => exact .inl (by rw [readBus_eq])
  | _ => exact .inl rfl

/-! ## Steps under a time tracker -/

/-- What engines do under a time tracker, if `R` is what they do under one that returns. -/
inductive Tracked (tracker : TimeTracker) (R : Engine σ → Engine σ → Prop) : Engine σ → Engine σ → Prop
  /-- The time tracker is not called. -/
  | quiet {e e' : Engine σ} : R e e' → e'.finishes = e.finishes → Tracked tracker R e e'
  /-- The worker works off the command that came first. -/
  | work (e : Engine σ) (c : Command) (rest : List Command) :
    e.cancelled = false → e.stopped = false → e.inbox = c :: rest →
      Tracked tracker R e ({ e with inbox := rest }.handleUnder tracker c)
  /-- Once the worker is lost, no more tasks can come into the queue of a stage, and a window does not wait
  for them. -/
  | hasten (e : Engine σ) (stage : Stage) (w : OpenWindow) :
    e.cancelled = false → e.stopped = true → (e.blocks stage).window ≠ none →
    (e.loop stage).gathering = some w → (e.loop stage).queue = [] →
      Tracked tracker R e
        ((e.setLoop stage { e.loop stage with gathering := none }).handWindow stage w.members)

/-- The runs of an engine under a time tracker, and the requests made so far. -/
inductive RunsUnder (env : Environment σ) (drift : σ → σ → Prop) (blocks : Stage → Block)
    (tracker : TimeTracker) (world : σ) : List Descriptor → Engine σ → Prop
  | start : RunsUnder env drift blocks tracker world [] (Engine.start blocks world)
  | request {ds : List Descriptor} {e : Engine σ} (d : Descriptor) :
    RunsUnder env drift blocks tracker world ds e →
      RunsUnder env drift blocks tracker world (ds ++ [d]) (e.submit d).2
  | step {ds : List Descriptor} {e e' : Engine σ} : RunsUnder env drift blocks tracker world ds e →
    Tracked tracker (Step env drift) e e' → e'.replies.size = e.replies.size →
      RunsUnder env drift blocks tracker world ds e'

/-- An infinite run under a time tracker, in which nothing is asked but these requests, in their order. -/
structure UnfoldsUnder (env : Environment σ) (drift : σ → σ → Prop) (blocks : Stage → Block)
    (tracker : TimeTracker) (world : σ) (ds : List Descriptor) (run : ℕ → Engine σ) : Prop where
  step : ∀ n, Tracked tracker (Step env drift) (run n) (run (n + 1))
  asked : ∀ n, ∃ asked, asked <+: ds ∧ RunsUnder env drift blocks tracker world asked (run n)

/-- Nothing is left to do under a time tracker, however long the engine waits. -/
def ExhaustedUnder (env : Environment σ) (tracker : TimeTracker) (e : Engine σ) : Prop :=
  ∀ now, e.now ≤ now → ∀ e', ¬Tracked tracker (Acts env) { e with now } e'

/-- As long as calls return, a step under a time tracker is one of the engine's steps, -/
theorem Tracked.step (h : Tracked tracker (Step env drift) e e')
    (hrun : e.cancelled = false → e.stopped = false) (hret : tracker.Returns e'.finishes) :
    Step env drift e e' := by
  cases h with
  | quiet hs => exact hs
  | work c rest hc hst hi =>
    rcases handleUnder_cases tracker { e with inbox := rest } c with
      ⟨-, heq⟩ | ⟨finish, hfin, ⟨-, heq⟩ | ⟨hcrash, heq⟩⟩
    · rw [heq]
      exact .work e c rest hc hst hi
    · rw [heq]
      exact .work e c rest hc hst hi
    · rw [heq, loseWorker_eq] at hret
      have hhead : tracker.Returns (finish :: e.finishes) := hfin ▸ hret
      exact absurd (hhead.1.symm.trans hcrash) Bool.false_ne_true
  | hasten stage w hc hst => exact absurd ((hrun hc).symm.trans hst) Bool.false_ne_true

/-- and one of the engine's steps is a step under a time tracker. -/
theorem Step.tracked (hs : Step env drift e e') (hret : tracker.Returns e'.finishes) :
    Tracked tracker (Step env drift) e e' ∧ tracker.Returns e.finishes := by
  rcases hs.finishes_cases with hfin | ⟨c, rest, hc, hst, hi, rfl⟩
  · exact ⟨.quiet hs hfin, hfin ▸ hret⟩
  · have hwork : Tracked tracker (Step env drift) e ({ e with inbox := rest }.handleUnder tracker c) :=
      .work e c rest hc hst hi
    rcases handleUnder_cases tracker { e with inbox := rest } c with
      ⟨hfin, heq⟩ | ⟨finish, hfin, ⟨-, heq⟩ | ⟨hcrash, -⟩⟩
    · exact ⟨heq ▸ hwork, hfin ▸ hret⟩
    · rw [hfin] at hret
      exact ⟨heq ▸ hwork, hret.2⟩
    · rw [hfin] at hret
      exact absurd (hret.1.symm.trans hcrash) Bool.false_ne_true

theorem Steps.returns (hs : Steps env drift e e') (hret : tracker.Returns e'.finishes) :
    tracker.Returns e.finishes := by
  induction hs with
  | refl => exact hret
  | tail _ hs ih => exact ih (hs.tracked hret).2

/-- An engine that has nothing left to do under a time tracker would have nothing to do under another. -/
theorem ExhaustedUnder.exhausted (h : ExhaustedUnder env tracker e) : Exhausted env e := by
  intro now hnow e' hact
  have hs : Step env (fun _ _ => False) { e with now } e' := hact.step
  rcases hs.finishes_cases with hfin | ⟨c, rest, hc, hst, hi, -⟩
  · exact h now hnow _ (.quiet hact hfin)
  · exact h now hnow _ (.work _ c rest hc hst hi)

/-! ## A worker that is lost -/

/-- What is left when the worker is lost. -/
structure Lost (e : Engine σ) : Prop where
  stopped : e.stopped = true
  inbox : e.inbox = []
  /-- A request was turned away or was given a task, whose delivery is closed once it has left the
  registry. -/
  replies : ∀ (r : Nat) (x : Reply), e.replies[r]? = some x → x = .refused ∨
    ∃ (i : Nat) (t : Task), x = .task i ∧ e.tasks[i]? = some t ∧
      (i ∈ e.registry ∨ t.delivered.completed = true)

theorem inbox_complete_of_stopped (h : e.stopped = true) (p : Promise) (m : Move) :
    (e.complete p m).2.inbox = e.inbox := by
  by_cases ho : e.isOpen p = true
  · rw [complete_of_isOpen ho]
    exact if_pos h
  · rw [complete_of_used (by simpa using ho)]

theorem inbox_instruct_of_stopped (h : e.stopped = true) (index : Nat) (r : Routine) :
    (e.instruct env index r).inbox = e.inbox := by
  have hend : ∀ ending, (e.endHandler index ending).inbox = e.inbox := fun ending => by
    rw [endHandler_eq]
  cases r with
  | finish ending => exact hend ending
  | look p k =>
    simp only [instruct]
    split
    · rfl
    · exact hend .ok
  | complete p m k => exact inbox_complete_of_stopped h p m
  | deliver p v k =>
    have hd : (e.deliver p.task v).2.inbox = e.inbox := by rw [deliver_eq]
    exact hd
  | _ => rfl

/-- Once the worker has stopped, nothing comes in for it, and it registers nothing. -/
theorem Step.inbox_of_stopped (hs : Step env drift e e') (h : e.stopped = true) :
    e'.inbox = e.inbox ∧ e'.registry = e.registry := by
  have hnot : e.stopped = false → e'.inbox = e.inbox ∧ e'.registry = e.registry := fun hrun =>
    absurd (hrun.symm.trans h) Bool.false_ne_true
  cases hs with
  | submit d => rw [submit_eq]; exact ⟨if_pos h, rfl⟩
  | shutdown => rw [shutdown_eq]; exact ⟨rfl, rfl⟩
  | work c rest hc hrun => exact hnot hrun
  | stop hc hrun => exact hnot hrun
  | take stage index rest => rw [handOne_frame]; exact ⟨rfl, rfl⟩
  | closeWindow stage w => rw [handWindow_eq]; exact ⟨rfl, rfl⟩
  | run index x r => exact ⟨inbox_instruct_of_stopped h index r, by rw [instruct_eq]⟩
  | rescue index x ending error p =>
    exact ⟨inbox_complete_of_stopped h p _, by rw [complete_eq]⟩
  | read index => rw [readBus_eq]; exact ⟨rfl, rfl⟩
  | _ => exact ⟨rfl, rfl⟩

namespace Lost

/-- Requests that wait are in the inbox and are turned away, and tasks that are not registered have
finished. -/
theorem loseWorker (he : Reachable env drift blocks e) (hb : ∀ s, (blocks s).Proper)
    (journal : List (Moment × Message)) : Lost ({ e with journal } : Engine σ).loseWorker := by
  refine { stopped := by rw [loseWorker_eq], inbox := by rw [loseWorker_eq], replies := ?_ }
  intro r x hx
  rw [replies_loseWorker] at hx
  rw [loseWorker_eq]
  split at hx
  · obtain ⟨y, -, rfl⟩ := Option.map_eq_some_iff.1 hx
    exact .inl rfl
  · rename_i hni
    have hr : e.replies[r]? = some x := hx
    cases x with
    | waiting =>
      obtain ⟨d, hd⟩ := he.attended r hr
      have hin : r ∈ e.inbox.filterMap Command.slot? := List.mem_filterMap.2 ⟨_, hd, rfl⟩
      exact absurd hin hni
    | refused => exact .inl rfl
    | task i =>
      have hi := he.desk.answers r i hr
      have ht := Array.getElem?_eq_getElem hi
      refine .inr ⟨i, _, rfl, ht, ?_⟩
      cases hf : e.tasks[i].isFinished with
      | false => exact .inl (he.desk.registered i _ ht hf)
      | true => exact .inr ((he.quiet hb).closed i _ ht hf)

theorem step (h : Lost e) (hs : Step env drift e e') : Lost e' := by
  obtain ⟨hstopped, hreplies⟩ := hs.replies_of_stopped h.stopped
  obtain ⟨hinbox, hregistry⟩ := hs.inbox_of_stopped h.stopped
  refine { stopped := hstopped, inbox := hinbox.trans h.inbox, replies := fun r x hx => ?_ }
  have hkept : e.replies[r]? = some x ∨ x = .refused := by
    rcases hreplies with heq | heq <;> rw [heq] at hx
    · exact .inl hx
    · rw [Array.getElem?_push] at hx
      split at hx
      · exact .inr (Option.some.inj hx).symm
      · exact .inl hx
  rcases hkept with hx | rfl
  · rcases h.replies r x hx with rfl | ⟨i, t, rfl, ht, hit⟩
    · exact .inl rfl
    · obtain ⟨t', ht', hg⟩ := hs.grows i t ht
      refine .inr ⟨i, t', rfl, ht', hit.imp (fun hi => hregistry ▸ hi) fun hclosed => ?_⟩
      rw [hg.closed hclosed]
      exact hclosed
  · exact .inl rfl

/-- Of what an engine does under a time tracker, only its own steps are left, and closing a window. -/
theorem step_or_closes (h : Lost e) (hs : Tracked tracker (Step env drift) e e') :
    e'.finishes = e.finishes ∧ (Step env drift e e' ∨ Closes e e') := by
  cases hs with
  | quiet hs hfin => exact ⟨hfin, .inl hs⟩
  | work c rest hc hrun => exact absurd (hrun.symm.trans h.stopped) Bool.false_ne_true
  | hasten stage w _ _ hw hg => exact ⟨by rw [handWindow_eq]; rfl, .inr ⟨stage, w, hw, hg, rfl⟩⟩

theorem tracked (h : Lost e) (hs : Tracked tracker (Step env drift) e e') : Lost e' := by
  rcases (h.step_or_closes hs).2 with hs | ⟨stage, w, -, -, rfl⟩
  · exact h.step hs
  · rw [handWindow_eq]
    exact ⟨h.stopped, h.inbox, h.replies⟩

end Lost

/-- The worker is lost to a call that crashes. -/
theorem Tracked.lost (hs : Tracked tracker (Step env drift) e e') (he : Reachable env drift blocks e)
    (hb : ∀ s, (blocks s).Proper) (hret : tracker.Returns e.finishes)
    (hnot : ¬tracker.Returns e'.finishes) : Lost e' := by
  cases hs with
  | quiet _ hfin => exact absurd (hfin ▸ hret) hnot
  | work c rest hc hst hi =>
    rcases handleUnder_cases tracker { e with inbox := rest } c with
      ⟨hfin, heq⟩ | ⟨finish, hfin, ⟨hcall, heq⟩ | ⟨-, heq⟩⟩
    · rw [heq, hfin] at hnot
      exact absurd hret hnot
    · rw [heq, hfin] at hnot
      exact absurd ⟨hcall, hret⟩ hnot
    · rw [heq]
      exact .loseWorker (he.step (.work e c rest hc hst hi)) hb _
  | hasten stage w hc hst => exact absurd ((he.running hc).symm.trans hst) Bool.false_ne_true

/-- Nobody has no answer but those who wait for a task that is still registered. -/
theorem Lost.answered (h : Lost e) {r : Nat} (hr : r < e.replies.size) :
    (∃ x, e.answer r = .item x) ∨ ∃ i ∈ e.registry, e.reply r = .task i := by
  have hget := Array.getElem?_eq_getElem hr
  rcases h.replies r _ hget with hx | ⟨i, t, hx, ht, hi | hclosed⟩
  · exact .inl ⟨_, by rw [answer, reply, hget, hx]; rfl⟩
  · exact .inr ⟨i, hi, by rw [reply, hget, hx]; rfl⟩
  · exact .inl ⟨_, (answer_of_task (hget.trans (congrArg some hx)) ht).trans
      (Task.outcome_of_completed hclosed)⟩

/-! ## Runs under a time tracker -/

namespace RunsUnder

variable {world : σ} {ds : List Descriptor}

/-- Each request has a slot for its answer. -/
theorem size_replies (h : RunsUnder env drift blocks tracker world ds e) :
    e.replies.size = ds.length := by
  induction h with
  | start => rfl
  | request d _ ih => rw [submit_eq, Array.size_push, ih, List.length_append]; rfl
  | step _ _ hsize ih => rw [hsize, ih]

/-- **Until a call crashes, an engine runs as it would under a time tracker that returns; then the worker
is lost.** -/
theorem cases (h : RunsUnder env drift blocks tracker world ds e) (hb : ∀ s, (blocks s).Proper) :
    tracker.Returns e.finishes ∧ Runs env drift blocks world ds e ∨
      ¬tracker.Returns e.finishes ∧ Lost e := by
  induction h with
  | start => exact .inl ⟨trivial, .start⟩
  | @request ds e d _ ih =>
    have hfin : (e.submit d).2.finishes = e.finishes := by rw [submit_eq]
    have hs : Step env drift e (e.submit d).2 := .submit e d
    rw [hfin]
    exact ih.imp (fun h => ⟨h.1, h.2.request d⟩) fun h => ⟨h.1, h.2.step hs⟩
  | @step ds e e' _ hs hsize ih =>
    rcases ih with ⟨hret, hr⟩ | ⟨hnot, hlost⟩
    · by_cases hret' : tracker.Returns e'.finishes
      · exact .inl ⟨hret', .step hr (hs.step hr.reachable.running hret') hsize⟩
      · exact .inr ⟨hret', hs.lost hr.reachable hb hret hret'⟩
    · rw [(hlost.step_or_closes hs).1]
      exact .inr ⟨hnot, hlost.tracked hs⟩

end RunsUnder

/-- Conversely, a run in which every call returns is one under the time tracker. -/
theorem Runs.under {world : σ} {ds : List Descriptor} (h : Runs env drift blocks world ds e)
    (hret : tracker.Returns e.finishes) : RunsUnder env drift blocks tracker world ds e := by
  induction h with
  | start => exact .start
  | @request ds e d _ ih =>
    have hfin : (e.submit d).2.finishes = e.finishes := by rw [submit_eq]
    exact .request d (ih (hfin ▸ hret))
  | step _ hs hsize ih =>
    obtain ⟨ht, hret⟩ := hs.tracked hret
    exact .step (ih hret) ht hsize

theorem Unfolds.under {world : σ} {ds : List Descriptor} {run : ℕ → Engine σ}
    (h : Unfolds env drift blocks world ds run) (hret : ∀ n, tracker.Returns (run n).finishes) :
    UnfoldsUnder env drift blocks tracker world ds run where
  step n := ((h.step n).tracked (hret (n + 1))).1
  asked n := by
    obtain ⟨asked, hpre, hr⟩ := h.asked n
    exact ⟨asked, hpre, hr.under (hret n)⟩

/-- A step is an act of the engine or asks it for a task, or the engine waits. -/
theorem Tracked.acts_or_waits (h : Tracked tracker (Step env drift) e e') :
    Tracked tracker (Acts env) e e' ∨ (∃ d, e' = (e.submit d).2) ∨ Waits drift e e' := by
  cases h with
  | quiet hs hfin => exact hs.acts_or_waits.imp_left fun hact => .quiet hact hfin
  | work c rest hc hst hi => exact .inl (.work e c rest hc hst hi)
  | hasten stage w hc hst hw hg hq => exact .inl (.hasten e stage w hc hst hw hg hq)

/-! ## Infinite runs -/

/-- When the worker is lost, stages take nothing in. -/
theorem Lost.loop_drains (h : Lost e) (hs : Tracked tracker (Step env drift) e e') (s : Stage) :
    (e.loop s).Drains (e'.loop s) := by
  rcases (h.step_or_closes hs).2 with hs' | ⟨stage, w, -, -, rfl⟩
  · exact hs'.loop_drains (by rw [(h.tracked hs).inbox, h.inbox]) s
  · rw [loop_handWindow, loop_setLoop]
    split
    · rename_i hst
      exact hst ▸ .inr (.inr (.inl rfl))
    · exact .inl rfl

section

variable {run : ℕ → Engine σ} (hlost : ∀ n, Lost (run n))
  (hstep : ∀ n, Tracked tracker (Step env drift) (run n) (run (n + 1)))
include hlost hstep

/-- The stages work off their queues, -/
theorem eventually_queue_of_lost : ∀ᶠ n in atTop, ∀ s,
    ((run (n + 1)).loop s).queue.length = ((run n).loop s).queue.length :=
  eventually_stages fun s => eventually_eq_of_le (m := fun n => ((run n).loop s).queue.length)
    (.of_forall fun n => ((hlost n).loop_drains (hstep n) s).queue_le)

/-- then they open no windows any more and close those that are open, -/
theorem eventually_gathering_of_lost : ∀ᶠ n in atTop, ∀ s,
    ((run (n + 1)).loop s).gathering = none ↔ ((run n).loop s).gathering = none := by
  refine eventually_stages fun s => ?_
  refine eventually_iff (Q := fun n => ((run n).loop s).gathering = none) ?_
  filter_upwards [eventually_queue_of_lost hlost hstep] with n hqueue hg
  exact ((hlost n).loop_drains (hstep n) s).gathering_eq_none (hqueue s) hg

theorem eventually_not_closes_of_lost : ∀ᶠ n in atTop, ¬Closes (run n) (run (n + 1)) := by
  filter_upwards [eventually_gathering_of_lost hlost hstep] with n hgathering hclose
  obtain ⟨stage, w, -, hg, heq⟩ := hclose
  have hclosed : ((run (n + 1)).loop stage).gathering = none := by
    rw [heq, loop_handWindow, loop_setLoop, if_pos rfl]
  rw [(hgathering stage).1 hclosed] at hg
  exact absurd hg.symm (Option.some_ne_none w)

/-- and no handler is started any more. -/
theorem eventually_lull_of_lost : ∀ᶠ n in atTop, Lull (run n) (run (n + 1)) := by
  obtain ⟨N, hN⟩ := eventually_atTop.1 ((eventually_queue_of_lost hlost hstep).and
    (eventually_not_closes_of_lost hlost hstep))
  have hlater : ∀ n, Step env drift (run (N + n)) (run (N + n + 1)) := fun n =>
    ((hlost (N + n)).step_or_closes (hstep (N + n))).2.resolve_right
      (hN (N + n) (Nat.le_add_right N n)).2
  refine eventually_of_later (N := N) (eventually_lull hlater (.of_forall fun n => ?_))
  obtain ⟨hqueue, hclose⟩ := hN (N + n) (Nat.le_add_right N n)
  rcases (hlater n).size_handlers with hsize | ⟨-, ⟨s, hlt⟩ | h⟩
  · exact hsize
  · exact absurd (hqueue s) (Nat.ne_of_lt hlt)
  · exact absurd h hclose

/-- **An engine whose worker is lost comes to rest, whatever its blocks.** -/
theorem eventually_not_acts_of_lost :
    ∀ᶠ n in atTop, ¬Tracked tracker (Acts env) (run n) (run (n + 1)) := by
  filter_upwards [eventually_lull_of_lost hlost hstep, eventually_queue_of_lost hlost hstep,
    eventually_gathering_of_lost hlost hstep, eventually_not_closes_of_lost hlost hstep]
    with n hlull hqueue hgathering hclose hact
  have hstopped : (run n).stopped ≠ false := by rw [(hlost n).stopped]; exact Bool.false_ne_true.symm
  have hnot : ¬Acts env (run n) (run (n + 1)) := by
    intro hact
    rcases hlull.acts_cases hact with ⟨-, h, -⟩ | ⟨-, h, -⟩ | ⟨-, ⟨s, hlt⟩ | h⟩ | ⟨-, s, hne, hs⟩
    · exact hstopped h
    · exact hstopped h
    · exact Nat.ne_of_lt hlt (hqueue s)
    · exact hclose h
    · have hq : ((run n).loop s).queue = [] := by
        rw [← List.length_eq_zero_iff, ← hqueue s, hs]
        rfl
      have hg : ((run n).loop s).gathering = none := (hgathering s).1 (by rw [hs])
      exact hne (by rw [← hq, ← hg])
  generalize hnext : run (n + 1) = e' at hact hclose hnot
  cases hact with
  | quiet hact => exact hnot hact
  | work c rest hc hrun => exact hstopped hrun
  | hasten stage w _ _ hw hg => exact hclose ⟨stage, w, hw, hg, rfl⟩

end

namespace UnfoldsUnder

variable {world : σ} {ds : List Descriptor} {run : ℕ → Engine σ}

/-- No more than the given requests are made. -/
theorem eventually_replies (hrun : UnfoldsUnder env drift blocks tracker world ds run) {N : ℕ}
    (hlost : ∀ n, N ≤ n → Lost (run n)) :
    ∀ᶠ n in atTop, (run (n + 1)).replies.size = (run n).replies.size := by
  refine eventually_of_later (N := N) (eventually_eq_of_ge (m := fun n => (run (N + n)).replies.size)
    (K := ds.length) (fun n => ?_) fun n => ?_)
  · rcases ((hlost _ (Nat.le_add_right N n)).step_or_closes (hrun.step (N + n))).2 with
      hs | ⟨stage, w, -, -, heq⟩
    · exact hs.size_replies_le
    · have hsame : (run (N + n + 1)).replies = (run (N + n)).replies := by rw [heq, handWindow_eq]; rfl
      exact Nat.le_of_eq (congrArg Array.size hsame.symm)
  · obtain ⟨asked, hpre, hr⟩ := hrun.asked (N + n)
    rw [hr.size_replies]
    exact hpre.length_le

/-- An infinite run in which no call crashes is one of the engine's infinite runs. -/
theorem unfolds (hrun : UnfoldsUnder env drift blocks tracker world ds run)
    (hb : ∀ s, (blocks s).Proper) (hret : ∀ n, tracker.Returns (run n).finishes) :
    Unfolds env drift blocks world ds run := by
  have hasked : ∀ n, ∃ asked, asked <+: ds ∧ Runs env drift blocks world asked (run n) := by
    intro n
    obtain ⟨asked, hpre, hr⟩ := hrun.asked n
    rcases hr.cases hb with ⟨-, hr⟩ | ⟨hnot, -⟩
    · exact ⟨asked, hpre, hr⟩
    · exact absurd (hret n) hnot
  refine { step := fun n => ?_, asked := hasked }
  obtain ⟨asked, -, hr⟩ := hasked n
  exact (hrun.step n).step hr.reachable.running (hret (n + 1))

/-- **Every run comes to rest, whatever the time tracker does.** -/
theorem eventually_waits {window : Duration} {retries : Nat}
    (hrun : UnfoldsUnder env drift (Stages.block window retries) tracker world ds run)
    (hds : ∀ d ∈ ds, d.Permitted) : ∀ᶠ n in atTop, Waits drift (run n) (run (n + 1)) := by
  have hb := Stages.proper_block window retries
  by_cases hret : ∀ n, tracker.Returns (run n).finishes
  · exact (hrun.unfolds hb hret).eventually_waits hds
  · obtain ⟨N, hN⟩ := not_forall.1 hret
    have hlost : ∀ n, N ≤ n → Lost (run n) := by
      intro n hn
      induction n, hn using Nat.le_induction with
      | base =>
        obtain ⟨asked, -, hr⟩ := hrun.asked N
        exact ((hr.cases hb).resolve_left fun h => hN h.1).2
      | succ n _ ih => exact ih.tracked (hrun.step n)
    have hlater : ∀ n, Lost (run (N + n)) := fun n => hlost _ (Nat.le_add_right N n)
    have hnot : ∀ᶠ n in atTop, ¬Tracked tracker (Acts env) (run n) (run (n + 1)) :=
      eventually_of_later (N := N) (eventually_not_acts_of_lost hlater fun n => hrun.step (N + n))
    filter_upwards [hnot, hrun.eventually_replies hlost] with n hnot hsize
    rcases (hrun.step n).acts_or_waits with hact | ⟨d, hd⟩ | hwaits
    · exact absurd hact hnot
    · rw [hd, submit_eq, Array.size_push] at hsize
      exact absurd hsize (Nat.succ_ne_self _)
    · exact hwaits

end UnfoldsUnder
end Engine
end RpcFlow
