import RpcFlow.Proofs.Engine.Agreement
import RpcFlow.Proofs.Engine.Chronicle

/-!
# What a shutdown leaves behind

An engine may be told to stop at any moment: while tasks wait in queues or are collected in a window,
while their calls are on the way, between two deliveries.  Nobody is left waiting then.  The worker
closes the delivery of the tasks it has registered, those are all that have not finished, and the
others were closed when they finished; and the requests that it did not come to are all in its inbox.

* `Engine.Attended` — the invariant: a request that waits for an answer is in the inbox.
* `Engine.AtRest` — what the steps of a stopped engine leave as the worker has left it.
* `Engine.Aftermath`, `Engine.leaves_nobody_waiting` — **every caller gets what was delivered until
  the worker stopped, or is told that nothing was**, and handlers that run on change nothing.
-/

set_option autoImplicit false

namespace RpcFlow

/-- What the callers of a task get once its delivery is closed. -/
def Task.conclusion (t : Task) : Except CallError Json :=
  match t.delivered.items with
  | v :: _ => v.result
  | [] =>
    .error (.interrupted ("task " ++ toString t.id ++ " finished without delivering a result"))

theorem Task.outcome_of_completed {t : Task} (h : t.delivered.completed = true) :
    t.outcome = .item t.conclusion := by
  unfold Task.outcome Task.conclusion ReplayLog.read
  cases t.delivered.items with
  | nil => simp [h]
  | cons v rest => rfl

namespace Engine

variable {σ : Type} {env : Environment σ} {drift : σ → σ → Prop} {blocks : Stage → Block}
  {e₀ e e' : Engine σ}

/-! ## Requests that wait -/

/-- A request that waits for an answer is in the inbox. -/
def Attended (e : Engine σ) : Prop :=
  ∀ r : Nat, e.replies[r]? = some .waiting → ∃ d, .submit d r ∈ e.inbox

namespace Attended

theorem start (blocks : Stage → Block) (world : σ) : Attended (Engine.start blocks world) :=
  fun r hr => by simp [Engine.start] at hr

/-- Commands may be added to the inbox. -/
theorem of_subset (h : Attended e) (hreplies : e'.replies = e.replies) (hinbox : e.inbox ⊆ e'.inbox) :
    Attended e' := by
  intro r hr
  obtain ⟨d, hd⟩ := h r (hreplies ▸ hr)
  exact ⟨d, hinbox hd⟩

theorem submit (h : Attended e) (d : Descriptor) : Attended (e.submit d).2 := by
  intro r hr
  rw [submit_eq] at hr ⊢
  rw [Array.getElem?_push] at hr
  split at hr
  · rename_i hnew
    cases hs : e.stopped with
    | true => rw [hs] at hr; exact absurd hr (by simp)
    | false => exact ⟨d, by simp [hnew]⟩
  · obtain ⟨d', hd'⟩ := h r hr
    refine ⟨d', ?_⟩
    simp only
    split
    · exact hd'
    · exact List.mem_append_left _ hd'

/-- The request that came first is answered, the others still wait. -/
theorem work (h : Attended e) {c : Command} {rest : List Command} (hi : e.inbox = c :: rest) :
    Attended ({ e with inbox := rest }.handle c) := by
  intro r hr
  have hinbox : ({ e with inbox := rest }.handle c).inbox = rest := by rw [handle_eq]
  rw [hinbox]
  have hrest : ∀ {d}, .submit d r ∈ e.inbox → .submit d r ≠ c → .submit d r ∈ rest := by
    intro d hd hne
    rw [hi] at hd
    exact (List.mem_cons.1 hd).resolve_left hne
  cases c with
  | submit d₁ r₁ =>
    simp only [handle] at hr
    rw [accept_eq, Array.getElem?_setIfInBounds] at hr
    split at hr
    · split at hr <;> exact absurd hr (by simp)
    · rename_i hne
      obtain ⟨d, hd⟩ := h r hr
      refine ⟨d, hrest hd fun heq => ?_⟩
      cases heq
      exact hne rfl
  | transition i source verdict =>
    simp only [handle] at hr
    rw [place_eq] at hr
    obtain ⟨d, hd⟩ := h r hr
    exact ⟨d, hrest hd fun heq => Command.noConfusion heq⟩

/-- When the worker stops, all requests that wait are turned away. -/
theorem not_waiting_stopWorker (h : Attended e) (r : Nat) :
    e.stopWorker.replies[r]? ≠ some .waiting := by
  intro hr
  rw [replies_stopWorker] at hr
  split at hr
  · obtain ⟨x, -, hx⟩ := Option.map_eq_some_iff.1 hr
    exact Reply.noConfusion hx
  · rename_i hni
    obtain ⟨d, hd⟩ := h r hr
    exact hni (List.mem_filterMap.2 ⟨_, hd, rfl⟩)

theorem step (h : Attended e) (hs : Step env drift e e') : Attended e' := by
  cases hs with
  | submit d => exact h.submit d
  | shutdown => rw [shutdown_eq]; exact h
  | work c rest hc hrun hi => exact h.work hi
  | stop => exact fun r hr => absurd hr (h.not_waiting_stopWorker r)
  | take stage index rest => rw [handOne_frame]; exact h
  | closeWindow stage w => rw [handWindow_eq]; exact h
  | run index x r =>
    exact h.of_subset (by rw [instruct_eq]) (inbox_instruct env index e r).subset
  | rescue index x ending error p =>
    exact h.of_subset (by rw [complete_eq]) (inbox_complete e p _).subset
  | read index => rw [readBus_eq]; exact h
  | _ => exact h

end Attended

theorem Reachable.attended (he : Reachable env drift blocks e) : Attended e := by
  induction he with
  | start world => exact .start blocks world
  | step _ hs ih => exact ih.step hs

/-! ## The worker stops -/

/-- The tasks that are not registered have finished, so every delivery is closed. -/
theorem Reachable.closed_stopWorker (he : Reachable env drift blocks e)
    (hb : ∀ s, (blocks s).Proper) {i : Nat} {t : Task} (ht : e.tasks[i]? = some t) :
    e.stopWorker.tasks[i]? = some t.close := by
  rw [getElem?_stopWorker, ht]
  split
  · rfl
  · rename_i hni
    have hf : t.isFinished = true := by
      cases hf : t.isFinished with
      | true => rfl
      | false => exact absurd (he.desk.registered i t ht hf) hni
    have hclosed := (he.quiet hb).closed i t ht hf
    rw [Task.close, ReplayLog.complete_of_completed hclosed]

/-- A stopped engine turns every request away. -/
theorem Step.replies_of_stopped (hs : Step env drift e e') (hrun : e.stopped = true) :
    e'.stopped = true ∧ (e'.replies = e.replies ∨ e'.replies = e.replies.push .refused) := by
  cases hs with
  | submit d =>
    rw [submit_eq]
    refine ⟨hrun, .inr ?_⟩
    simp only [hrun, if_true]
  | shutdown => rw [shutdown_eq]; exact ⟨hrun, .inl rfl⟩
  | work c rest hc hs' => rw [hrun] at hs'; exact Bool.noConfusion hs'
  | stop hc hs' => rw [hrun] at hs'; exact Bool.noConfusion hs'
  | take stage index rest => rw [handOne_frame]; exact ⟨hrun, .inl rfl⟩
  | closeWindow stage w => rw [handWindow_eq]; exact ⟨hrun, .inl rfl⟩
  | run index x r => rw [instruct_eq]; exact ⟨hrun, .inl rfl⟩
  | rescue index x ending error p => rw [complete_eq]; exact ⟨hrun, .inl rfl⟩
  | read index => rw [readBus_eq]; exact ⟨hrun, .inl rfl⟩
  | _ => exact ⟨hrun, .inl rfl⟩

/-- What the worker has left when it stopped in a state, and what the steps from then on keep. -/
structure AtRest (e₀ e : Engine σ) : Prop where
  stopped : e.stopped = true
  cancelled : e.cancelled = true
  events : e.events = e₀.events
  size : e.tasks.size = e₀.tasks.size
  /-- Deliveries are closed and hold what they held. -/
  tasks : ∀ (i : Nat) (t : Task), e₀.tasks[i]? = some t →
    ∃ t', e.tasks[i]? = some t' ∧ t'.id = t.id ∧ t'.delivered = t.delivered.complete
  /-- Requests that were given a task have it, and all others were turned away. -/
  replies : ∀ (r : Nat) (x : Reply), e.replies[r]? = some x →
    (∃ i, x = .task i ∧ e₀.replies[r]? = some (.task i)) ∨
      x = .refused ∧ ∀ i, e₀.replies[r]? ≠ some (.task i)
  slots : e₀.replies.size ≤ e.replies.size

namespace AtRest

theorem stopWorker (he : Reachable env drift blocks e) (hb : ∀ s, (blocks s).Proper)
    (hc : e.cancelled = true) : AtRest e e.stopWorker := by
  have hslots : e.stopWorker.replies.size = e.replies.size := size_replies_stopWorker e
  refine { stopped := by rw [stopWorker_eq], cancelled := by rw [stopWorker_eq]; exact hc,
           events := by rw [stopWorker_eq], size := ?_, tasks := ?_, replies := ?_,
           slots := Nat.le_of_eq hslots.symm }
  · rw [tasks_stopWorker, size_foldl_close]
  · exact fun i t ht => ⟨_, he.closed_stopWorker hb ht, rfl, rfl⟩
  · intro r x hx
    have hwait := he.attended.not_waiting_stopWorker r
    rw [hx] at hwait
    rw [replies_stopWorker] at hx
    split at hx
    · rename_i hin
      obtain ⟨y, -, rfl⟩ := Option.map_eq_some_iff.1 hx
      refine .inr ⟨rfl, fun i hi => ?_⟩
      rw [he.desk.waiting r hin] at hi
      exact absurd hi (by simp)
    · cases x with
      | waiting => exact absurd rfl hwait
      | task i => exact .inl ⟨i, rfl, hx⟩
      | refused => exact .inr ⟨rfl, fun i hi => by rw [hx] at hi; exact absurd hi (by simp)⟩

/-- What is delivered to a task whose delivery is closed does not reach the bus. -/
theorem events_step (h : AtRest e₀ e) (hs : Step env drift e e') : e'.events = e.events := by
  cases hs.deliveries with
  | none hsilent => exact hsilent.events
  | create d events => exact events
  | deliver index x p v k hx hr heq =>
    rw [heq]
    simp only [instruct]
    have hsame : (e.deliver p.task v).2.events = e.events := by
      cases ht : e.tasks[p.task]? with
      | none => rw [deliver_of_none ht]
      | some t =>
        have hi : p.task < e₀.tasks.size := h.size ▸ (Array.getElem?_eq_some_iff.1 ht).1
        obtain ⟨t', ht', -, hdel⟩ := h.tasks p.task _ (Array.getElem?_eq_getElem hi)
        rw [ht] at ht'
        cases ht'
        have hlate : (t.deliver v).2 = false := by
          rw [Task.deliver_eq, hdel]
          rfl
        rw [deliver_of_later ht hlate]
        rfl
    exact hsame

/-- **Handlers that run on after the worker has stopped change neither a delivery nor the bus**, and
no step changes an answer. -/
theorem step (h : AtRest e₀ e) (hs : Step env drift e e') : AtRest e₀ e' := by
  obtain ⟨hstopped, hreplies⟩ := hs.replies_of_stopped h.stopped
  have hc : e'.cancelled = true := by
    cases hc : e'.cancelled with
    | true => rfl
    | false => exact absurd ((hs.frame.2.1 hc).symm.trans h.cancelled) Bool.false_ne_true
  refine { stopped := hstopped, cancelled := hc, events := (h.events_step hs).trans h.events,
           size := ?_, tasks := ?_, replies := ?_, slots := ?_ }
  · refine Nat.le_antisymm (Nat.le_of_not_lt fun hlt => ?_) (Nat.le_of_not_lt fun hlt => ?_)
    · -- no task is created, and none is lost
      obtain ⟨t, ht, -⟩ := (hs.idle hc).back _ _ (Array.getElem?_eq_getElem hlt)
      rw [← h.size, Array.getElem?_eq_none (Nat.le_refl _)] at ht
      cases ht
    · obtain ⟨t, ht, -⟩ := h.tasks _ _ (Array.getElem?_eq_getElem hlt)
      obtain ⟨t', ht', -⟩ := hs.grows _ t ht
      rw [Array.getElem?_eq_none (Nat.le_refl _)] at ht'
      cases ht'
  · intro i t₀ ht₀
    obtain ⟨t, ht, hid, hdel⟩ := h.tasks i t₀ ht₀
    obtain ⟨t', ht', hg⟩ := hs.grows i t ht
    have hclosed : t.delivered.completed = true := by rw [hdel]; rfl
    exact ⟨t', ht', hg.id.trans hid, (hg.closed hclosed).trans hdel⟩
  · intro r x hx
    rcases hreplies with heq | heq <;> rw [heq] at hx
    · exact h.replies r x hx
    · rw [Array.getElem?_push] at hx
      split at hx
      · rename_i hnew
        cases hx
        refine .inr ⟨rfl, fun i hi => ?_⟩
        have hlt := (Array.getElem?_eq_some_iff.1 hi).1
        have hslots := h.slots
        omega
      · exact h.replies r x hx
  · have hslots := h.slots
    rcases hreplies with heq | heq <;> rw [heq]
    · exact hslots
    · rw [Array.size_push]
      omega

theorem steps (h : AtRest e₀ e) (hs : Steps env drift e e') : AtRest e₀ e' := by
  induction hs with
  | refl => exact h
  | tail _ hstep ih => exact ih.step hstep

end AtRest

/-- An engine whose worker has stopped has come from a state in which it did. -/
theorem Reachable.exists_stop (he : Reachable env drift blocks e) (hstop : e.stopped = true) :
    ∃ e₀, Reachable env drift blocks e₀ ∧ e₀.cancelled = true ∧ e₀.stopped = false ∧
      Steps env drift e₀.stopWorker e := by
  induction he with
  | start world => exact Bool.noConfusion hstop
  | @step e e' he hs ih =>
    cases hrun : e.stopped with
    | true =>
      obtain ⟨e₀, he₀, hc₀, hr₀, hsteps⟩ := ih hrun
      exact ⟨e₀, he₀, hc₀, hr₀, hsteps.tail hs⟩
    | false =>
      have hnot : e'.stopped = e.stopped → False := fun heq => by
        rw [hstop, hrun] at heq
        exact Bool.noConfusion heq
      cases hs with
      | stop hc => exact ⟨e, he, hc, hrun, .refl⟩
      | submit d => exact (hnot (by rw [submit_eq])).elim
      | shutdown => exact (hnot (by rw [shutdown_eq])).elim
      | work c rest => exact (hnot (by rw [handle_eq])).elim
      | take stage index rest => exact (hnot (by rw [handOne_frame]; rfl)).elim
      | closeWindow stage w => exact (hnot (by rw [handWindow_eq]; rfl)).elim
      | run index x r => exact (hnot (by rw [instruct_eq])).elim
      | rescue index x ending error p => exact (hnot (by rw [complete_eq])).elim
      | read index => exact (hnot (by rw [readBus_eq])).elim
      | _ => exact (hnot rfl).elim

/-! ## The result -/

/-- What the callers of an engine get whose worker has stopped, in terms of the state in which it
did. -/
structure Aftermath (e₀ e : Engine σ) : Prop where
  /-- The delivery of every task that was ever created is closed. -/
  closed : ∀ (i : Nat) (t : Task), e.tasks[i]? = some t → t.delivered.completed = true
  /-- It holds what it held when the worker stopped, and the bus has carried nothing since. -/
  kept : ∀ i : Nat, (e.tasks[i]?.map fun t => t.delivered.items) =
    e₀.tasks[i]?.map fun t => t.delivered.items
  events : e.events = e₀.events
  /-- A request that was given a task gets what was delivered until then, or is told that nothing
  was. -/
  handled : ∀ r i : Nat, e₀.replies[r]? = some (.task i) →
    ∃ t, e₀.tasks[i]? = some t ∧ e.answer r = .item t.conclusion
  /-- A request that the worker did not come to is told that the engine has stopped. -/
  unhandled : ∀ (d : Descriptor) (r : Nat), .submit d r ∈ e₀.inbox →
    e.answer r = .item (.error stoppedError)
  /-- So is one that was made later. -/
  late : ∀ r, e₀.replies.size ≤ r → r < e.replies.size → e.answer r = .item (.error stoppedError)
  /-- Nobody waits. -/
  answered : ∀ r < e.replies.size, ∃ x, e.answer r = .item x

theorem AtRest.answer_refused (h : AtRest e₀ e) {r : Nat} (hr : r < e.replies.size)
    (hn : ∀ i, e₀.replies[r]? ≠ some (.task i)) : e.answer r = .item (.error stoppedError) := by
  have hx := Array.getElem?_eq_getElem hr
  rcases h.replies r _ hx with ⟨i, -, hi⟩ | ⟨hrefused, -⟩
  · exact absurd hi (hn i)
  · rw [answer, reply, hx, hrefused]
    rfl

theorem AtRest.answer_task (h : AtRest e₀ e) {r i : Nat} {t : Task}
    (hr : e₀.replies[r]? = some (.task i)) (ht : e₀.tasks[i]? = some t) :
    e.answer r = .item t.conclusion := by
  have hlt : r < e.replies.size :=
    Nat.lt_of_lt_of_le (Array.getElem?_eq_some_iff.1 hr).1 h.slots
  have hx := Array.getElem?_eq_getElem hlt
  obtain ⟨t', ht', hid, hdel⟩ := h.tasks i t ht
  have hreply : e.replies[r]? = some (.task i) := by
    rcases h.replies r _ hx with ⟨j, hj, hj₀⟩ | ⟨-, hn⟩
    · rw [hr] at hj₀
      cases hj₀
      rw [hx, hj]
    · exact absurd hr (hn i)
  have hsame : t'.conclusion = t.conclusion := by
    simp only [Task.conclusion, hdel, hid]
    rfl
  rw [answer_of_task hreply ht', Task.outcome_of_completed (by rw [hdel]; rfl), hsame]

/-- So every request is answered. -/
theorem AtRest.exists_answer (h : AtRest e₀ e) (hd : Desk e₀) {r : Nat} (hr : r < e.replies.size) :
    ∃ x, e.answer r = .item x := by
  by_cases htask : ∃ i, e₀.replies[r]? = some (.task i)
  · obtain ⟨i, hi⟩ := htask
    exact ⟨_, h.answer_task hi (Array.getElem?_eq_getElem (hd.answers r i hi))⟩
  · exact ⟨_, h.answer_refused hr fun i hi => htask ⟨i, hi⟩⟩

/-- **A shutdown leaves nobody waiting**, at whatever moment it comes and whatever the stages do with
their tasks: a stopped engine has come from a state in which its worker stopped, each caller gets what
was delivered until then or is told that nothing was, and nothing that goes on changes a delivery or
the bus. -/
theorem leaves_nobody_waiting (hb : ∀ s, (blocks s).Proper) (he : Reachable env drift blocks e)
    (hstop : e.stopped = true) :
    ∃ e₀, Reachable env drift blocks e₀ ∧ e₀.cancelled = true ∧ e₀.stopped = false ∧
      Steps env drift e₀.stopWorker e ∧ ∀ e', Steps env drift e e' → Aftermath e₀ e' := by
  obtain ⟨e₀, he₀, hc₀, hr₀, hsteps⟩ := he.exists_stop hstop
  refine ⟨e₀, he₀, hc₀, hr₀, hsteps, fun e' hs => ?_⟩
  have hrest : AtRest e₀ e' := (AtRest.stopWorker he₀ hb hc₀).steps (hsteps.trans hs)
  have hback : ∀ {i : Nat} {t : Task}, e'.tasks[i]? = some t →
      ∃ t₀, e₀.tasks[i]? = some t₀ ∧ t.delivered = t₀.delivered.complete := by
    intro i t ht
    have hi : i < e₀.tasks.size := hrest.size ▸ (Array.getElem?_eq_some_iff.1 ht).1
    obtain ⟨t', ht', -, hdel⟩ := hrest.tasks i _ (Array.getElem?_eq_getElem hi)
    rw [ht] at ht'
    cases ht'
    exact ⟨_, Array.getElem?_eq_getElem hi, hdel⟩
  have hhandled : ∀ r i : Nat, e₀.replies[r]? = some (.task i) →
      ∃ t, e₀.tasks[i]? = some t ∧ e'.answer r = .item t.conclusion := by
    intro r i hr
    have ht := Array.getElem?_eq_getElem (he₀.desk.answers r i hr)
    exact ⟨_, ht, hrest.answer_task hr ht⟩
  refine { closed := ?_, kept := ?_, events := hrest.events, handled := hhandled, unhandled := ?_,
           late := ?_, answered := ?_ }
  · intro i t ht
    obtain ⟨t₀, -, hdel⟩ := hback ht
    rw [hdel]
    rfl
  · intro i
    cases ht : e'.tasks[i]? with
    | none =>
      rw [Array.getElem?_eq_none_iff, hrest.size, ← Array.getElem?_eq_none_iff] at ht
      rw [ht]
    | some t =>
      obtain ⟨t₀, ht₀, hdel⟩ := hback ht
      rw [ht₀, Option.map_some, Option.map_some, hdel]
      rfl
  · intro d r hin
    have hwait := he₀.desk.waiting r (List.mem_filterMap.2 ⟨_, hin, rfl⟩)
    have hlt := (Array.getElem?_eq_some_iff.1 hwait).1
    refine hrest.answer_refused (Nat.lt_of_lt_of_le hlt hrest.slots) fun i hi => ?_
    rw [hwait] at hi
    exact absurd hi (by simp)
  · intro r hle hlt
    refine hrest.answer_refused hlt fun i hi => ?_
    exact absurd (Array.getElem?_eq_some_iff.1 hi).1 (Nat.not_lt.2 hle)
  · exact fun r hr => hrest.exists_answer he₀.desk hr

/-- An engine that is stopped between two deliveries to one task, while a second task waits for its
first stage and a third request for the worker; a delivery stage runs on. -/
def severed : Engine Unit :=
  [.worker, .handler 2].foldl (turn .crashing)
    (([.worker].foldl (turn .crashing)
      (([.worker, .loop .initial, .handler 0, .worker, .loop .deliverError, .handler 1].foldl
        (turn .crashing) ((Engine.start (Stages.block (.ofMillis 0) 1) ()).submit
          { ping with strategy := insistent }).2).submit { ping with method := "pong" }).2).submit
            { ping with method := "pong" }).2.shutdown

theorem leaves_nobody_waiting_severed :
    (∀ s, (Stages.block (.ofMillis 0) 1 s).Proper) ∧
      Reachable .crashing (fun _ _ => False) (Stages.block (.ofMillis 0) 1) severed ∧
      severed.stopped = true ∧
      (∃ e₀, Reachable .crashing (fun _ _ => False) (Stages.block (.ofMillis 0) 1) e₀ ∧
        e₀.cancelled = true ∧ e₀.stopped = false ∧
        Steps .crashing (fun _ _ => False) e₀.stopWorker severed ∧
        ∀ e', Steps .crashing (fun _ _ => False) severed e' → Aftermath e₀ e') ∧
      (severed.events.size = 1 ∧
        severed.answer 0 = .item (.error (.interrupted "flow ended without a result")) ∧
        severed.answer 1 =
          .item (.error (.interrupted "task 2 finished without delivering a result")) ∧
        severed.answer 2 = .item (.error (.interrupted "engine stopped"))) :=
  have hr : Reachable .crashing (fun _ _ => False) (Stages.block (.ofMillis 0) 1) severed :=
    Reachable.steps (.step (.step (Reachable.steps (.step (Reachable.steps
      (.step (.start ()) (.submit _ _)) (turns_steps _ _)) (.submit _ _)) (turns_steps _ _))
      (.submit _ _)) (.shutdown _)) (turns_steps _ _)
  ⟨Stages.proper_block _ _, hr, rfl, leaves_nobody_waiting (Stages.proper_block _ _) hr rfl, rfl, rfl,
    rfl, rfl⟩

end Engine
end RpcFlow
