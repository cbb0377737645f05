import RpcFlow.Proofs.Engine.Commitments
import RpcFlow.Proofs.Engine.Lulls
import RpcFlow.Proofs.Engine.Requests
import RpcFlow.Proofs.Engine.Shutdown

/-!
# Work ebbs away

An infinite run comes to rest piece by piece.  There are no more tasks than requests; once there are no
new ones, tasks come no nearer to their ends from some point on, so that no window is closed any more,
since it would commit a task; then no promise is used, since those of the network stage are used up; then
nothing comes in for the worker, then nothing for the stages, and then no handler is started.

* `Engine.Closes` — a window is closed.
* `Engine.Step.inbox_le`, `Engine.Step.loop_drains`, `Engine.Step.size_handlers` — who brings work to whom.
* `Engine.Unfolds` — infinite runs in which certain requests are made.
* `Engine.Unfolds.eventually_waits` — an infinite run comes to rest.
-/

set_option autoImplicit false

namespace RpcFlow

open Filter

/-- A request as callers can make it, under a merge of presets that reaches the network. -/
structure Descriptor.Permitted (d : Descriptor) : Prop where
  strategy : ∃ (presets : List Preset) (cell : Nat), (∃ p ∈ presets, p.reachesNet = true) ∧
    d.strategy = Strategy.merge (presets.map Preset.table) cell
  /-- Every descriptor that is built has it, see `Descriptor.one_le_maxBatchSize_of_build`. -/
  size : 1 ≤ d.maxBatchSize

/-- A loop takes nothing in: it stays as it is, takes the task that came first from its queue, closes its
window or forgets what it has collected. -/
def Loop.Drains (l l' : Loop) : Prop :=
  l' = l ∨ (∃ index, l.queue = index :: l'.queue) ∨ l' = { l with gathering := none } ∨ l' = ⟨[], none⟩

namespace Loop.Drains

variable {l l' : Loop}

theorem queue_le (h : l.Drains l') : l'.queue.length ≤ l.queue.length := by
  rcases h with rfl | ⟨index, h⟩ | rfl | rfl
  · exact Nat.le_refl _
  · rw [h]
    exact Nat.le_succ _
  · exact Nat.le_refl _
  · exact Nat.zero_le _

/-- A window is opened only with a task from the queue. -/
theorem gathering_eq_none (h : l.Drains l') (hqueue : l'.queue.length = l.queue.length)
    (hg : l.gathering = none) : l'.gathering = none := by
  rcases h with rfl | ⟨index, h⟩ | rfl | rfl
  · exact hg
  · rw [h] at hqueue
    exact absurd hqueue (Nat.ne_of_lt (Nat.lt_succ_self _))
  · rfl
  · rfl

end Loop.Drains

/-- What comes to rest for each stage comes to rest for all of them. -/
theorem eventually_stages {P : Stage → ℕ → Prop} (h : ∀ s, ∀ᶠ n in atTop, P s n) :
    ∀ᶠ n in atTop, ∀ s, P s n := by
  filter_upwards [(eventually_all_finite (List.finite_toSet Stage.all)).2 fun s _ => h s] with n hn s
  exact hn s (Stage.mem_all s)

namespace Engine

variable {σ : Type} {env : Environment σ} {drift : σ → σ → Prop} {window : Duration} {retries : Nat}
  {e e' : Engine σ}

/-! ## Who brings work to whom -/

/-- A window is closed. -/
def Closes (e e' : Engine σ) : Prop :=
  ∃ (stage : Stage) (w : OpenWindow), (e.blocks stage).window ≠ none ∧
    (e.loop stage).gathering = some w ∧
    e' = (e.setLoop stage { e.loop stage with gathering := none }).handWindow stage w.members

/-- When a window is closed, a handler is started. -/
theorem Closes.exists_started (hl : Ledger e) (h : Closes e e') :
    ∃ x, e'.handlers[e.handlers.size]? = some x ∧ Started e e' x ∧
      (e.blocks x.stage).window ≠ none := by
  obtain ⟨stage, w, hw, hg, rfl⟩ := h
  obtain ⟨x, hx, hstage⟩ : ∃ x, ((e.setLoop stage { e.loop stage with gathering := none }).handWindow
      stage w.members).handlers[e.handlers.size]? = some x ∧ x.stage = stage := by
    rw [handWindow_eq]
    exact ⟨_, Array.getElem?_push_size, rfl⟩
  refine ⟨x, hx, ?_, hstage ▸ hw⟩
  rcases hl.handler_closeWindow hw hg hx with ⟨y, hy, -⟩ | ⟨-, hst⟩
  · exact absurd (Array.getElem?_eq_some_iff.1 hy).1 (Nat.lt_irrefl _)
  · exact hst

/-- The loop of a stage that takes a task has one task less in its queue. -/
theorem length_queue_setLoop {stage : Stage} {l : Loop} {index : Nat} {rest : List Nat}
    (hq : (e.loop stage).queue = index :: rest) (hl : l.queue = rest) :
    ((e.setLoop stage l).loop stage).queue.length < (e.loop stage).queue.length := by
  rw [loop_setLoop, if_pos rfl, hl, hq]
  exact Nat.lt_succ_self _

/-- Handlers are started only when a stage takes a task or a window is closed, and not any more once the
engine was told to stop. -/
theorem Step.size_handlers (hs : Step env drift e e') : e'.handlers.size = e.handlers.size ∨
    e.cancelled = false ∧
      ((∃ s, (e'.loop s).queue.length < (e.loop s).queue.length) ∨ Closes e e') := by
  cases hs with
  | submit d => exact .inl (by rw [submit_eq])
  | shutdown => exact .inl (by rw [shutdown_eq])
  | work c rest => exact .inl (by rw [handle_eq])
  | stop => exact .inl (by rw [stopWorker_eq])
  | take stage index rest hc hw hq =>
    refine .inr ⟨hc, .inl ⟨stage, ?_⟩⟩
    rw [handOne_frame]
    exact length_queue_setLoop hq rfl
  | closeWindow stage w hc hw hg => exact .inr ⟨hc, .inr ⟨stage, w, hw, hg, rfl⟩⟩
  | run index x r => exact .inl (size_handlers_instruct env index e r)
  | watch index => exact .inl (by rw [updateHandler, Array.size_modify])
  | rescue index x ending error p => exact .inl (by rw [complete_eq])
  | read index => exact .inl (by rw [readBus_eq])
  | _ => exact .inl rfl

/-- Nothing comes in for the worker but requests and the tasks of promises that are used. -/
theorem Step.inbox_le (hl : Ledger e) (hs : Step env drift e e')
    (hsize : e'.replies.size = e.replies.size)
    (hopen : ∀ p ∈ e.issued, e.isOpen p = true → e'.isOpen p = true) :
    e'.inbox.length ≤ e.inbox.length := by
  have hsame : e'.inbox = e.inbox → e'.inbox.length ≤ e.inbox.length := fun h =>
    Nat.le_of_eq (congrArg List.length h)
  -- a promise that is used would be closed
  have huse : ∀ (p : Promise) (m : Move), p ∈ e.issued → e'.used = (e.complete p m).2.used →
      (e.complete p m).2.inbox = e.inbox := by
    intro p m hp hused
    by_cases ho : e.isOpen p = true
    · have hclosed : e'.isOpen p = (e.complete p m).2.isOpen p := by rw [isOpen, isOpen, hused]
      rw [hopen p hp ho, isOpen_complete ho, if_pos rfl] at hclosed
      exact Bool.noConfusion hclosed
    · rw [complete_of_used (by simpa using ho)]
  cases hs with
  | submit d =>
    rw [submit_eq, Array.size_push] at hsize
    exact absurd hsize (Nat.succ_ne_self _)
  | shutdown => exact hsame (by rw [shutdown_eq])
  | work c rest hc hst hi =>
    rw [handle_eq, hi]
    exact Nat.le_succ _
  | stop => rw [stopWorker_eq]; exact Nat.zero_le _
  | take stage index rest => exact hsame (by rw [handOne_frame]; rfl)
  | closeWindow stage w => exact hsame (by rw [handWindow_eq]; rfl)
  | run index x r hx hr =>
    have hin : r.Within x.promises := hl.within index x hx r hr
    have hend : ∀ ending, (e.endHandler index ending).inbox = e.inbox := fun ending => by
      rw [endHandler_eq]
    cases r with
    | finish ending => exact hsame (hend ending)
    | look p k =>
      simp only [instruct]
      split
      · exact Nat.le_refl _
      · exact Nat.le_of_eq (congrArg List.length (hend .ok))
    | complete p m k => exact hsame (huse p m (mem_issued hx hin.1.1) rfl)
    | deliver p v k =>
      have hd : (e.deliver p.task v).2.inbox = e.inbox := by rw [deliver_eq]
      exact hsame hd
    | _ => exact hsame rfl
  | rescue index x ending error p hx hst herr hp => exact hsame (huse p _ (mem_issued hx hp) rfl)
  | read index => exact hsame (by rw [readBus_eq])
  | _ => exact hsame rfl

/-- Unless the worker works, stages take nothing in. -/
theorem Step.loop_drains (hs : Step env drift e e') (hinbox : e'.inbox.length = e.inbox.length)
    (s : Stage) : (e.loop s).Drains (e'.loop s) := by
  have hsame : e'.loops = e.loops → (e.loop s).Drains (e'.loop s) := fun h =>
    .inl (by rw [loop, loop, h])
  -- the loop of one stage is changed
  have hset : ∀ (stage : Stage) (l : Loop), (e.loop stage).Drains l →
      e'.loops = (e.setLoop stage l).loops → (e.loop s).Drains (e'.loop s) := by
    intro stage l hl h
    have hloop : e'.loop s = (e.setLoop stage l).loop s := by rw [loop, loop, h]
    rw [hloop, loop_setLoop]
    split
    · rename_i hst
      exact hst ▸ hl
    · exact .inl rfl
  cases hs with
  | submit d => exact hsame (by rw [submit_eq])
  | shutdown => exact hsame (by rw [shutdown_eq])
  | work c rest hc hst hi =>
    rw [handle_eq, hi, List.length_cons] at hinbox
    exact absurd hinbox (Nat.ne_of_lt (Nat.lt_succ_self _))
  | stop => exact hsame (by rw [stopWorker_eq])
  | take stage index rest hc hw hq =>
    exact hset stage { e.loop stage with queue := rest } (.inr (.inl ⟨index, hq⟩)) (by rw [handOne_frame])
  | openWindow stage window index rest hc hw hg hq =>
    exact hset stage _ (.inr (.inl ⟨index, hq⟩)) rfl
  | gather stage w index rest hc hw hg hd hq => exact hset stage _ (.inr (.inl ⟨index, hq⟩)) rfl
  | closeWindow stage w hc hw hg hd =>
    exact hset stage { e.loop stage with gathering := none } (.inr (.inr (.inl rfl)))
      (by rw [handWindow_eq]; rfl)
  | forget stage hc => exact hset stage _ (.inr (.inr (.inr rfl))) rfl
  | run index x r => exact hsame (by rw [instruct_eq])
  | rescue index x ending error p => exact hsame (by rw [complete_eq])
  | read index => exact hsame (by rw [readBus_eq])
  | _ => exact hsame rfl

/-- A promise was given before, or it is for a stage without a window, or a window is closed. -/
theorem Step.issued_back (hs : Step env drift e e') {p : Promise} (hp : p ∈ e'.issued) :
    p ∈ e.issued ∨ (e.blocks p.stage).window = none ∨ Closes e e' := by
  have hsame : e'.handlers = e.handlers →
      p ∈ e.issued ∨ (e.blocks p.stage).window = none ∨ Closes e e' := fun h => by
    rw [issued, h] at hp
    exact .inl hp
  cases hs with
  | submit d => exact hsame (by rw [submit_eq])
  | shutdown => exact hsame (by rw [shutdown_eq])
  | work c rest => exact hsame (by rw [handle_eq])
  | stop => exact hsame (by rw [stopWorker_eq])
  | take stage index rest hc hw =>
    cases ht : (e.setLoop stage { e.loop stage with queue := rest }).tasks[index]? with
    | none => exact hsame (by rw [handOne_of_none stage ht]; rfl)
    | some t =>
      obtain ⟨hps, he⟩ := handOne_eq stage ht
      have hissued := (congrArg issued he).trans (issued_assign _ stage _ _)
      rw [hissued] at hp
      rcases List.mem_append.1 hp with hp | hp
      · exact .inl hp
      · rw [hps, List.mem_singleton] at hp
        exact .inr (.inl (hp ▸ hw))
  | closeWindow stage w hc hw hg => exact .inr (.inr ⟨stage, w, hw, hg, rfl⟩)
  | run index x r =>
    rw [issued_instruct] at hp
    exact .inl hp
  | watch index =>
    have hissued := issued_updateHandler (f := fun h => { h with watched := true }) e index fun _ => rfl
    exact .inl (hissued ▸ hp)
  | rescue index x ending error p => exact hsame (by rw [complete_eq])
  | read index => exact hsame (by rw [readBus_eq])
  | _ => exact hsame rfl

/-- Once the engine was told to stop, its stages take nothing in. -/
theorem Step.loop_of_cancelled (hs : Step env drift e e') (hc : e.cancelled = true) {s : Stage}
    (hs' : e.loop s = ⟨[], none⟩) : e'.loop s = ⟨[], none⟩ := by
  have hnot : e.cancelled = false → e'.loop s = ⟨[], none⟩ := fun h => by
    rw [hc] at h
    exact Bool.noConfusion h
  have hsame : e'.loops = e.loops → e'.loop s = ⟨[], none⟩ := fun h => by
    rw [loop, h]
    exact hs'
  cases hs with
  | submit d => exact hsame (by rw [submit_eq])
  | shutdown => exact hsame (by rw [shutdown_eq])
  | work c rest h => exact hnot h
  | stop => exact hsame (by rw [stopWorker_eq])
  | take stage index rest h => exact hnot h
  | openWindow stage window index rest h => exact hnot h
  | gather stage w index rest h => exact hnot h
  | closeWindow stage w h => exact hnot h
  | forget stage =>
    rw [loop_setLoop]
    split
    · rfl
    · exact hs'
  | run index x r => exact hsame (by rw [instruct_eq])
  | rescue index x ending error p => exact hsame (by rw [complete_eq])
  | read index => exact hsame (by rw [readBus_eq])
  | _ => exact hsame rfl

/-- In a lull nobody acts but the worker and the loops of stages. -/
theorem Lull.acts_cases (hlull : Lull e e') (hact : Acts env e e') :
    (e.cancelled = false ∧ e.stopped = false ∧ e'.inbox.length < e.inbox.length) ∨
      (e.cancelled = true ∧ e.stopped = false ∧ e'.stopped = true) ∨
      (e.cancelled = false ∧ ((∃ s, (e'.loop s).queue.length < (e.loop s).queue.length) ∨ Closes e e')) ∨
      e.cancelled = true ∧ ∃ s, e.loop s ≠ ⟨[], none⟩ ∧ e'.loop s = ⟨[], none⟩ := by
  cases hact with
  | work c rest hc hst hi =>
    refine .inl ⟨hc, hst, ?_⟩
    rw [handle_eq, hi]
    exact Nat.lt_succ_self _
  | stop hc hst => exact .inr (.inl ⟨hc, hst, by rw [stopWorker_eq]⟩)
  | take stage index rest hc hw hq =>
    refine .inr (.inr (.inl ⟨hc, .inl ⟨stage, ?_⟩⟩))
    rw [handOne_frame]
    exact length_queue_setLoop hq rfl
  | openWindow stage window index rest hc hw hg hq =>
    exact .inr (.inr (.inl ⟨hc, .inl ⟨stage, length_queue_setLoop hq rfl⟩⟩))
  | gather stage w index rest hc hw hg hd hq =>
    exact .inr (.inr (.inl ⟨hc, .inl ⟨stage, length_queue_setLoop hq rfl⟩⟩))
  | closeWindow stage w hc hw hg => exact .inr (.inr (.inl ⟨hc, .inr ⟨stage, w, hw, hg, rfl⟩⟩))
  | forget stage hc hne =>
    exact .inr (.inr (.inr ⟨hc, stage, hne, by rw [loop_setLoop, if_pos rfl]⟩))
  | run index h r hx hr => exact absurd rfl (hlull.not_run hx hr)
  | watch index h r hx _ hw => exact absurd rfl (hlull.not_watch hx hw)
  | rescue index h ending error p _ _ _ _ ho => exact absurd rfl (hlull.not_rescue ho)
  | read index s hs hlive hc hpos => exact absurd rfl (hlull.not_read hs hlive hc hpos)

/-! ## Infinite runs -/

/-- An infinite run, in which nothing is asked but these requests, in their order. -/
structure Unfolds (env : Environment σ) (drift : σ → σ → Prop) (blocks : Stage → Block) (world : σ)
    (ds : List Descriptor) (run : ℕ → Engine σ) : Prop where
  step : ∀ n, Step env drift (run n) (run (n + 1))
  asked : ∀ n, ∃ asked, asked <+: ds ∧ Runs env drift blocks world asked (run n)

namespace Unfolds

variable {world : σ} {ds : List Descriptor} {run : ℕ → Engine σ}

section

variable {blocks : Stage → Block} (hrun : Unfolds env drift blocks world ds run)
include hrun

theorem reachable (n : ℕ) : Reachable env drift blocks (run n) := by
  obtain ⟨asked, -, hr⟩ := hrun.asked n
  exact hr.reachable

theorem steps {n m : ℕ} (h : n ≤ m) : Steps env drift (run n) (run m) := by
  induction m, h using Nat.le_induction with
  | base => exact .refl
  | succ m _ ih => exact ih.tail (hrun.step m)

/-- No more than the given requests are made. -/
theorem eventually_replies :
    ∀ᶠ n in atTop, (run (n + 1)).replies.size = (run n).replies.size := by
  refine eventually_eq_of_ge (m := fun n => (run n).replies.size) (K := ds.length)
    (fun n => (hrun.step n).size_replies_le) fun n => ?_
  obtain ⟨asked, hpre, hr⟩ := hrun.asked n
  rw [hr.size_replies]
  exact hpre.length_le

/-- A task keeps its request. -/
theorem descriptor_eq {n m i : ℕ} {t t' : Task} (ht : (run n).tasks[i]? = some t)
    (ht' : (run m).tasks[i]? = some t') : t'.descriptor = t.descriptor := by
  have hforth : ∀ {n m : ℕ} {t t' : Task}, n ≤ m → (run n).tasks[i]? = some t →
      (run m).tasks[i]? = some t' → t'.descriptor = t.descriptor := by
    intro n m t t' h ht ht'
    obtain ⟨t'', ht'', hg⟩ := (hrun.steps h).grows i t ht
    rw [ht'] at ht''
    cases ht''
    exact hg.descriptor
  rcases Nat.le_total n m with h | h
  · exact hforth h ht ht'
  · exact (hforth h ht' ht).symm

variable (hc : ∀ n, (run n).cancelled = false)
include hc

/-- Every task has one of the requests. -/
theorem mem_of_task {n i : ℕ} {t : Task} (ht : (run n).tasks[i]? = some t) : t.descriptor ∈ ds := by
  obtain ⟨asked, hpre, hr⟩ := hrun.asked n
  refine hpre.subset ((hr.requests (hc n)).subset (List.mem_append_left _ ?_))
  exact List.mem_map_of_mem (Array.mem_toList_iff.2 (Array.mem_of_getElem? ht))

/-- There are no more tasks than requests. -/
theorem eventually_tasks : ∀ᶠ n in atTop, (run (n + 1)).tasks.size = (run n).tasks.size := by
  refine eventually_eq_of_ge (m := fun n => (run n).tasks.size) (K := ds.length) (fun n => ?_)
    fun n => ?_
  · by_contra hlt
    have hget := Array.getElem?_eq_getElem (Nat.lt_of_not_le hlt)
    obtain ⟨t, ht, -⟩ := (hrun.step n).grows _ _ hget
    exact Nat.lt_irrefl _ (Array.getElem?_eq_some_iff.1 ht).1
  · obtain ⟨asked, hpre, hr⟩ := hrun.asked n
    have hle := (hr.requests (hc n)).length_le
    rw [requests, List.length_append, List.length_map, Array.length_toList] at hle
    have := hpre.length_le
    omega

end

section

variable (hrun : Unfolds env drift (Stages.block window retries) world ds run)
  (hds : ∀ d ∈ ds, d.Permitted) (hc : ∀ n, (run n).cancelled = false)
include hrun hds hc

/-- The strategy of every task goes the way of a preset. -/
theorem exists_preset (i : ℕ) : ∃ preset : Preset, ∀ (n : ℕ) (t : Task),
    (run n).tasks[i]? = some t → preset.Follows t.descriptor.strategy := by
  by_cases hex : ∃ n t, (run n).tasks[i]? = some t
  · obtain ⟨n, t, ht⟩ := hex
    obtain ⟨presets, cell, hnet, hmerge⟩ := (hds _ (hrun.mem_of_task hc ht)).strategy
    obtain ⟨preset, hf⟩ := Preset.exists_follows presets cell hnet
    refine ⟨preset, fun m t' ht' => ?_⟩
    rw [hrun.descriptor_eq ht ht', hmerge]
    exact hf
  · exact ⟨.noCache, fun n t ht => absurd ⟨n, t, ht⟩ hex⟩

/-- **From some point on, tasks come no nearer to their ends**, and the promises that are used put calls
off. -/
theorem eventually_putsOff : ∀ᶠ n in atTop, ∀ i, PutsOff (run n) (run (n + 1)) i := by
  obtain ⟨K, hK⟩ := exists_eventually_eq (m := fun n => (run n).tasks.size) (hrun.eventually_tasks hc)
  refine eventually_forall (K := K) (fun i hi => ?_) ?_
  · obtain ⟨preset, hf⟩ := hrun.exists_preset hds hc i
    have hthere : ∀ᶠ n in atTop, ∃ t, (run n).tasks[i]? = some t := by
      filter_upwards [hK] with n hn
      exact ⟨_, Array.getElem?_eq_getElem (show i < (run n).tasks.size from hn ▸ hi)⟩
    have hle : ∀ᶠ n in atTop,
        (run (n + 1)).distance preset retries i ≤ (run n).distance preset retries i := by
      filter_upwards [hthere] with n ⟨t, ht⟩
      rcases (hrun.step n).nearer (hrun.reachable n) (hc (n + 1)) ht (hf n t ht) with hlt | ⟨heq, -⟩
      · exact Nat.le_of_lt hlt
      · exact Nat.le_of_eq heq
    filter_upwards [hthere, eventually_eq_of_le (m := fun n => (run n).distance preset retries i) hle]
      with n ⟨t, ht⟩ hsame
    rcases (hrun.step n).nearer (hrun.reachable n) (hc (n + 1)) ht (hf n t ht) with hlt | ⟨-, hoff⟩
    · exact absurd hsame (Nat.ne_of_lt hlt)
    · exact hoff
  · -- there is no promise for a task that does not exist
    filter_upwards [hK] with n hn i hi p hp hpi
    obtain ⟨t, ht, -⟩ := ((hrun.reachable n).ledger (Stages.proper_block window retries) (hc n)).promised
      p hp
    have hlt := (Array.getElem?_eq_some_iff.1 ht).1
    omega

/-- **Then no window is closed any more.** -/
theorem eventually_not_closes : ∀ᶠ n in atTop, ¬Closes (run n) (run (n + 1)) := by
  have hl : ∀ n, Ledger (run n) := fun n =>
    (hrun.reachable n).ledger (Stages.proper_block window retries) (hc n)
  obtain ⟨K, hK⟩ := exists_eventually_eq (m := fun n => (run n).tasks.size) (hrun.eventually_tasks hc)
  have hnot : ∀ n i, (run n).tasks.size ≤ i → ¬(run n).Committed i := by
    rintro n i hi ⟨index, x, p, hx, hp, rfl, -⟩
    obtain ⟨t, ht, -⟩ := (hl n).promised p (mem_issued hx hp)
    exact absurd (Array.getElem?_eq_some_iff.1 ht).1 (Nat.not_lt.2 hi)
  have hcommitted : ∀ᶠ n in atTop, ∀ i, (run (n + 1)).Committed i ↔ (run n).Committed i := by
    refine eventually_forall (K := K) (fun i _ => ?_) ?_
    · refine eventually_iff (Q := fun n => (run n).Committed i) ?_
      filter_upwards [hrun.eventually_putsOff hds hc] with n hoff hcom
      exact hcom.step (hrun.reachable n) (hrun.step n) (hc (n + 1)) (hoff i)
    · filter_upwards [hK, hrun.eventually_tasks hc] with n hn hn' i hi
      exact iff_of_false (hnot (n + 1) i (by omega)) (hnot n i (by omega))
  filter_upwards [hcommitted] with n hn hclose
  obtain ⟨x, hx, hst, hw⟩ := hclose.exists_started (hl n)
  rw [(hrun.reachable n).blocks_eq] at hw
  obtain ⟨i, hfree, hcom⟩ := hst.commits (hrun.reachable n) (hrun.step n) (hc (n + 1)) hx
    (Stages.eq_getFromNet_of_window hw) (fun i t ht => (hds _ (hrun.mem_of_task hc ht)).size)
    fun i t ht => by
      obtain ⟨preset, hf⟩ := hrun.exists_preset hds hc i
      exact ⟨_, _, (hf n t ht).course⟩
  exact hfree ((hn i).1 hcom)

/-- **Then no promise is used any more.** -/
theorem eventually_isOpen : ∀ᶠ n in atTop, ∀ p ∈ (run n).issued, (run n).isOpen p = true →
    (run (n + 1)).isOpen p = true := by
  have hproper := Stages.proper_block window retries
  have hl : ∀ n, Ledger (run n) := fun n => (hrun.reachable n).ledger hproper (hc n)
  obtain ⟨N, hN⟩ := eventually_atTop.1 (hrun.eventually_not_closes hds hc)
  -- the promises of the network stage are those that there are now
  have hnet : ∀ n, N ≤ n → ∀ p ∈ (run n).issued, p.stage = .getFromNet →
      p.number < (run N).used.size := by
    intro n hn
    induction n, hn using Nat.le_induction with
    | base => exact fun p hp _ => (hl N).number_lt hp
    | succ n hn ih =>
      intro p hp hstage
      rcases (hrun.step n).issued_back hp with hp | hw | hclose
      · exact ih p hp hstage
      · rw [(hrun.reachable n).blocks_eq, hstage] at hw
        cases hw
      · exact absurd hclose (hN n hn)
  have hused : ∀ᶠ n in atTop, ∀ k < (run N).used.size,
      (run (n + 1)).used[k]? = some true ↔ (run n).used[k]? = some true :=
    (eventually_all_finite (Set.finite_lt_nat _)).2 fun k _ =>
      eventually_iff (Q := fun n => (run n).used[k]? = some true)
        (.of_forall fun n hk => (hrun.step n).used_kept hk)
  filter_upwards [hused, hrun.eventually_putsOff hds hc, eventually_ge_atTop N]
    with n hkept hoff hn p hp ho
  by_contra hclosed
  have hstage := (hoff p.task p hp rfl ho (by simpa using hclosed)).1
  have hp' := ((hrun.reachable n).effect hproper (hrun.step n) (hc (n + 1))).still_issued hp
  -- it would have been used before
  have htrue : (run (n + 1)).used[p.number]? = some true := by
    have hget := Array.getElem?_eq_getElem ((hl (n + 1)).number_lt hp')
    rw [isOpen_iff, hget, Option.some_inj, Bool.not_eq_false] at hclosed
    rw [hget, hclosed]
  rw [hkept _ (hnet n hn p hp hstage), isOpen_iff.1 ho] at htrue
  exact Bool.noConfusion (Option.some.inj htrue)

/-- **Then the worker has nothing left to do**, -/
theorem eventually_inbox :
    ∀ᶠ n in atTop, (run (n + 1)).inbox.length = (run n).inbox.length := by
  refine eventually_eq_of_le (m := fun n => (run n).inbox.length) ?_
  filter_upwards [hrun.eventually_isOpen hds hc, hrun.eventually_replies] with n hopen hsize
  exact (hrun.step n).inbox_le
    ((hrun.reachable n).ledger (Stages.proper_block window retries) (hc n)) hsize hopen

/-- nor have the stages, -/
theorem eventually_queue : ∀ᶠ n in atTop, ∀ s,
    ((run (n + 1)).loop s).queue.length = ((run n).loop s).queue.length := by
  refine eventually_stages fun s => ?_
  refine eventually_eq_of_le (m := fun n => ((run n).loop s).queue.length) ?_
  filter_upwards [hrun.eventually_inbox hds hc] with n hinbox
  exact ((hrun.step n).loop_drains hinbox s).queue_le

/-- **and no handler is started any more.** -/
theorem eventually_handlers :
    ∀ᶠ n in atTop, (run (n + 1)).handlers.size = (run n).handlers.size := by
  filter_upwards [hrun.eventually_not_closes hds hc, hrun.eventually_queue hds hc] with n hclose hqueue
  rcases (hrun.step n).size_handlers with hsize | ⟨-, ⟨s, hlt⟩ | h⟩
  · exact hsize
  · exact absurd (hqueue s) (Nat.ne_of_lt hlt)
  · exact absurd h hclose

/-- An engine that is not told to stop comes to rest. -/
theorem eventually_not_acts_of_running : ∀ᶠ n in atTop, ¬Acts env (run n) (run (n + 1)) := by
  filter_upwards [eventually_lull hrun.step (hrun.eventually_handlers hds hc),
    hrun.eventually_inbox hds hc, hrun.eventually_queue hds hc, hrun.eventually_not_closes hds hc]
    with n hlull hinbox hqueue hclose hact
  have hnot : (run n).cancelled ≠ true := by rw [hc n]; exact Bool.false_ne_true
  rcases hlull.acts_cases hact with ⟨-, -, hlt⟩ | ⟨h, -⟩ | ⟨-, ⟨s, hlt⟩ | h⟩ | ⟨h, -⟩
  · exact Nat.ne_of_lt hlt hinbox
  · exact hnot h
  · exact Nat.ne_of_lt hlt (hqueue s)
  · exact hclose h
  · exact hnot h

end

/-- An engine that is told to stop comes to rest, whatever its blocks. -/
theorem eventually_not_acts_of_cancelled {blocks : Stage → Block}
    (hrun : Unfolds env drift blocks world ds run) {N : ℕ} (hN : (run N).cancelled = true) :
    ∀ᶠ n in atTop, ¬Acts env (run n) (run (n + 1)) := by
  have hcancelled : ∀ n, N ≤ n → (run n).cancelled = true := by
    intro n hn
    by_contra hc
    have hfalse := (hrun.steps hn).cancelled (by simpa using hc)
    exact absurd (hfalse.symm.trans hN) Bool.false_ne_true
  have hhandlers : ∀ᶠ n in atTop, (run (n + 1)).handlers.size = (run n).handlers.size := by
    filter_upwards [eventually_ge_atTop N] with n hn
    rcases (hrun.step n).size_handlers with hsize | ⟨hc, -⟩
    · exact hsize
    · exact absurd (hc.symm.trans (hcancelled n hn)) Bool.false_ne_true
  have hstopped : ∀ᶠ n in atTop, (run (n + 1)).stopped = true ↔ (run n).stopped = true :=
    eventually_iff (Q := fun n => (run n).stopped = true)
      (.of_forall fun n hst => ((hrun.step n).replies_of_stopped hst).1)
  have hempty : ∀ᶠ n in atTop, ∀ s,
      (run (n + 1)).loop s = ⟨[], none⟩ ↔ (run n).loop s = ⟨[], none⟩ := by
    refine eventually_stages fun s => ?_
    refine eventually_iff (Q := fun n => (run n).loop s = ⟨[], none⟩) ?_
    filter_upwards [eventually_ge_atTop N] with n hn hs
    exact (hrun.step n).loop_of_cancelled (hcancelled n hn) hs
  filter_upwards [eventually_lull hrun.step hhandlers, hstopped, hempty, eventually_ge_atTop N]
    with n hlull hstopped hempty hn hact
  have hnot : (run n).cancelled ≠ false := by rw [hcancelled n hn]; exact Bool.false_ne_true.symm
  rcases hlull.acts_cases hact with ⟨h, -⟩ | ⟨-, hrunning, hst⟩ | ⟨h, -⟩ | ⟨-, s, hne, hs⟩
  · exact hnot h
  · exact Bool.false_ne_true (hrunning.symm.trans (hstopped.1 hst))
  · exact hnot h
  · exact hne ((hempty s).1 hs)

/-- So the engine does nothing of its own any more, -/
theorem eventually_not_acts (hrun : Unfolds env drift (Stages.block window retries) world ds run)
    (hds : ∀ d ∈ ds, d.Permitted) : ∀ᶠ n in atTop, ¬Acts env (run n) (run (n + 1)) := by
  by_cases hc : ∀ n, (run n).cancelled = false
  · exact hrun.eventually_not_acts_of_running hds hc
  · rw [not_forall] at hc
    obtain ⟨N, hN⟩ := hc
    exact hrun.eventually_not_acts_of_cancelled (N := N) (by simpa using hN)

/-- **and every run comes to rest**: from some point on, the engine waits. -/
theorem eventually_waits (hrun : Unfolds env drift (Stages.block window retries) world ds run)
    (hds : ∀ d ∈ ds, d.Permitted) : ∀ᶠ n in atTop, Waits drift (run n) (run (n + 1)) := by
  filter_upwards [hrun.eventually_not_acts hds, hrun.eventually_replies] with n hnot hsize
  rcases step_iff.1 (hrun.step n) with hact | ⟨d, hd⟩ | hwaits
  · exact absurd hact hnot
  · rw [hd, submit_eq, Array.size_push] at hsize
    exact absurd hsize (Nat.succ_ne_self _)
  · exact hwaits

end Unfolds
end Engine
end RpcFlow
