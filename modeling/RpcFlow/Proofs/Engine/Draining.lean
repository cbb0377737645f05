import RpcFlow.Proofs.Engine.Windows

/-!
# The network stage comes to rest

A task that is put off waits in the network stage for the next window, under a new promise.  If nothing
else arrives, the windows that follow one another are the tasks put off in the one before, and since
every window sends something, there are no more of them than tasks.

* `Stages.DrainsWithin` — window after window, at most so many, until no task is put off.
* `Stages.drains` — every task is on one call.
* `Engine.loop_returned`, `Engine.renewed_promises` — the tasks that are put off queue up in their order,
  and the promises made for them then are such as the next window is taken to hold.
-/

set_option autoImplicit false

namespace RpcFlow

/-- A promise but for its number: what it is for. -/
def Promise.unnumbered (p : Promise) : Promise := { p with number := 0 }

namespace Stages

/-- A window and what was done with it. -/
structure Round where
  window : List Promise
  deeds : List Deed

/-- The promises whose tasks are not sent back. -/
def Round.sent (r : Round) : List Promise := sentOf r.window r.deeds

/-- The promises of the next window: new ones for the tasks that were put off, in that order. -/
structure Renewed (deferred next : List Promise) : Prop where
  tasks : next.map Promise.unnumbered = deferred.map Promise.unnumbered
  numbers : (next.map Promise.number).Nodup

/-- However the calls are answered, the tasks put off in one window being those of the next, there are
no more windows than so many, and what is done with them has a property. -/
def DrainsWithin (window : Duration) (C : Contract) :
    Nat → List Promise → (List Round → Prop) → Prop
  | _, [], Q => Q []
  | 0, _ :: _, _ => False
  | n + 1, p :: ps, Q => ∀ isOpen : Promise → Bool, (∀ q ∈ p :: ps, isOpen q = true) →
    ((network window).onWindow (p :: ps)).Ensures C isOpen fun deeds _ =>
      ∀ next, Renewed (deferredOf deeds) next →
        DrainsWithin window C n next fun rounds => Q (⟨p :: ps, deeds⟩ :: rounds)

variable {window : Duration} {C : Contract} {n : Nat} {ps : List Promise}

theorem DrainsWithin.mono {Q Q' : List Round → Prop} (h : DrainsWithin window C n ps Q)
    (hQ : ∀ rounds, Q rounds → Q' rounds) : DrainsWithin window C n ps Q' := by
  induction n generalizing ps Q Q' with
  | zero =>
    cases ps with
    | nil => exact hQ [] h
    | cons p ps => exact h
  | succ n ih =>
    cases ps with
    | nil => exact hQ [] h
    | cons p ps =>
      exact fun isOpen hopen => (h isOpen hopen).mono fun deeds _ hd next hnext =>
        ih (hd next hnext) fun rounds => hQ _

/-- Each window has one call, and each task is on one of these calls. -/
structure AllSent (ps : List Promise) (rounds : List Round) : Prop where
  length : rounds.length ≤ ps.length
  calls : ∀ r ∈ rounds, OneCall r.window r.deeds
  tasks : ((rounds.flatMap Round.sent).map Promise.unnumbered).Perm (ps.map Promise.unnumbered)

/-- What is put off is less than the window. -/
theorem OneCall.length_deferred_lt {deeds : List Deed} (h : OneCall ps deeds) :
    (deferredOf deeds).length < ps.length := by
  rw [← h.parts.length_eq, List.length_append]
  exact Nat.lt_add_of_pos_right (List.length_pos_iff.2 h.nonempty)

theorem Renewed.length_eq {deferred next : List Promise} (h : Renewed deferred next) :
    next.length = deferred.length := by
  have hlength := congrArg List.length h.tasks
  rwa [List.length_map, List.length_map] at hlength

/-- The tasks of the next window are such as were put off. -/
theorem Renewed.descriptor {deferred next : List Promise} (h : Renewed deferred next) {q : Promise}
    (hq : q ∈ next) : ∃ p ∈ deferred, p.descriptor = q.descriptor := by
  have hmem : q.unnumbered ∈ deferred.map Promise.unnumbered := h.tasks ▸ List.mem_map_of_mem hq
  obtain ⟨p, hp, hpq⟩ := List.mem_map.1 hmem
  have hd : p.unnumbered.descriptor = q.unnumbered.descriptor := congrArg Promise.descriptor hpq
  exact ⟨p, hp, hd⟩

/-- One window more: what it does not send is sent in those that follow. -/
theorem AllSent.cons {deeds : List Deed} {next : List Promise} {rounds : List Round}
    (hone : OneCall ps deeds) (hnext : Renewed (deferredOf deeds) next) (h : AllSent next rounds) :
    AllSent ps (⟨ps, deeds⟩ :: rounds) where
  length := by
    have hlt := hone.length_deferred_lt
    have hle := h.length
    rw [hnext.length_eq] at hle
    exact Nat.succ_le_of_lt (Nat.lt_of_le_of_lt hle hlt)
  calls := List.forall_mem_cons.2 ⟨hone, h.calls⟩
  tasks := by
    have htasks := h.tasks
    rw [hnext.tasks] at htasks
    have hparts := (List.perm_append_comm.trans hone.parts).map Promise.unnumbered
    rw [List.map_append] at hparts
    rw [List.flatMap_cons, List.map_append]
    exact (htasks.append_left _).trans hparts

theorem drains_of_length_le (hle : ps.length ≤ n) (hsize : ∀ p ∈ ps, 1 ≤ p.descriptor.maxBatchSize)
    (hn : (ps.map Promise.number).Nodup) : DrainsWithin window C n ps (AllSent ps) := by
  induction n generalizing ps with
  | zero =>
    rw [List.length_eq_zero_iff.1 (Nat.le_zero.1 hle)]
    exact ⟨Nat.le_refl 0, fun r hr => absurd hr List.not_mem_nil, .refl _⟩
  | succ n ih =>
    cases ps with
    | nil => exact ⟨Nat.le_refl 0, fun r hr => absurd hr List.not_mem_nil, .refl _⟩
    | cons p ps =>
      intro isOpen hopen
      have hone : ((network window).onWindow (p :: ps)).Ensures C isOpen fun deeds _ =>
          OneCall (p :: ps) deeds := ensures_oneCall (List.cons_ne_nil p ps) hsize hn hopen
      refine hone.mono fun deeds _ hd next hnext => ?_
      have hlt : next.length < (p :: ps).length := hnext.length_eq ▸ hd.length_deferred_lt
      have hsize' : ∀ q ∈ next, 1 ≤ q.descriptor.maxBatchSize := by
        intro q hq
        obtain ⟨r, hr, hrq⟩ := hnext.descriptor hq
        exact hrq ▸ hsize r (hd.parts.subset (List.mem_append_left _ hr))
      exact (ih (Nat.le_of_lt_succ (Nat.lt_of_lt_of_le hlt hle)) hsize' hnext.numbers).mono
        fun rounds h => h.cons hd hnext

/-- **The network stage comes to rest**: with nothing else arriving, there are at most as many windows
as tasks, each sends something, and each task is on one call. -/
theorem drains (hsize : ∀ p ∈ ps, 1 ≤ p.descriptor.maxBatchSize)
    (hn : (ps.map Promise.number).Nodup) : DrainsWithin window C ps.length ps (AllSent ps) :=
  drains_of_length_le (Nat.le_refl _) hsize hn

theorem drains_mixed :
    DrainsWithin (.ofMillis 100) (.own mixed) mixed.length mixed (AllSent mixed) :=
  drains (by decide) (by decide)

end Stages

/-! ## The next window in an engine -/

namespace Engine

variable {σ : Type} {e : Engine σ}

/-- The worker puts tasks that are sent back at the end of the queue, in the order in which they were
sent back. -/
theorem loop_returned {l : List Promise} (h : ∀ p ∈ l, p.task < e.tasks.size) :
    ((l.map fun p => Command.transition p.task p.stage (.route [.getFromNet])).foldl handle e).loop
        .getFromNet =
      { e.loop .getFromNet with
        queue := (e.loop .getFromNet).queue ++ l.map Promise.task } := by
  induction l generalizing e with
  | nil => rw [List.map_nil, List.map_nil, List.append_nil]; rfl
  | cons p l ih =>
    obtain ⟨t, ht⟩ : ∃ t, e.tasks[p.task]? = some t :=
      ⟨_, Array.getElem?_eq_getElem (h p List.mem_cons_self)⟩
    have hrest : ∀ q ∈ l, q.task < (e.place p.task (some p.stage) [.getFromNet]).tasks.size := by
      intro q hq
      rw [size_place]
      exact h q (List.mem_cons_of_mem p hq)
    rw [List.map_cons, List.foldl_cons, handle, Verdict.next, ih hrest, loop_place _ _ _ ht,
      List.count_singleton_self, List.replicate_one, List.append_assoc]
    rfl

/-- But for their numbers, promises are determined by their tasks and their stage. -/
theorem map_unnumbered {stage : Stage} {l : List Promise}
    (h : ∀ p ∈ l, p.stage = stage ∧ ∃ t, e.tasks[p.task]? = some t ∧ p.taskId = t.id ∧
      p.descriptor = t.descriptor) :
    (l.map Promise.unnumbered).map some =
      (l.map Promise.task).map fun i => (e.promise? stage i).map Promise.unnumbered := by
  rw [List.map_map, List.map_map]
  refine List.map_congr_left fun p hp => ?_
  obtain ⟨number, task, taskId, stage', descriptor⟩ := p
  obtain ⟨rfl, t, ht, rfl, rfl⟩ := h _ hp
  rw [Function.comp_apply, Function.comp_apply, promise?, ht]
  rfl

/-- **The promises that the engine makes for tasks that were put off are those of the next window.** -/
theorem renewed_promises (hl : Ledger e) {deferred : List Promise}
    (h : ∀ p ∈ deferred, p ∈ e.issued ∧ p.stage = .getFromNet) :
    Stages.Renewed deferred (e.promises .getFromNet (deferred.map Promise.task)).1 := by
  have hlt : ∀ i ∈ deferred.map Promise.task, i < e.tasks.size := by
    intro i hi
    obtain ⟨p, hp, rfl⟩ := List.mem_map.1 hi
    obtain ⟨t, ht, -⟩ := hl.promised p (h p hp).1
    exact (Array.getElem?_eq_some_iff.1 ht).1
  refine ⟨List.map_injective_iff.2 (fun _ _ => Option.some.inj) ?_, ?_⟩
  · rw [map_unnumbered fun q hq => forall_promises hq,
      map_unnumbered fun p hp => ⟨(h p hp).2, hl.promised p (h p hp).1⟩, map_task_promises _ hlt]
  · rw [map_number_promises]
    exact List.nodup_range'

end Engine
end RpcFlow
