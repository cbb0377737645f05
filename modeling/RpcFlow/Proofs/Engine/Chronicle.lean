import RpcFlow.Proofs.Engine.Delivery

/-!
# The history of a run

A task keeps the verdicts it was given, but not which stages gave them.  The history of a run does:
it lists the promises that were used, in order, each with its verdict.  It is read off the states
that a step leads from and to, and the engine does not know of it.

* `Engine.spent` — what a step adds to the history; `Engine.Chronicle` — the runs with their
  histories.
* `Engine.Chronicle.results` — the history of a task and its recorded verdicts are the same.
* `Engine.attempts` — the outcomes of the calls that were made for a task.
* `Engine.Chronicle.before` — once a task has finished, neither its attempts nor its delivery
  change, also if the engine is told to stop.
-/

set_option autoImplicit false

namespace RpcFlow

/-- A promise that was used, with the verdict that its task was given. -/
structure Entry where
  promise : Promise
  verdict : Verdict

namespace Engine

variable {σ : Type} {env : Environment σ} {drift : σ → σ → Prop} {blocks : Stage → Block}
  {e e' : Engine σ} {history : List Entry}

/-- The promises that a step uses, each with the verdict that its task has recorded last. -/
def spent (e e' : Engine σ) : List Entry :=
  e.issued.filterMap fun p =>
    if e.isOpen p && !e'.isOpen p then
      (e'.tasks[p.task]?.bind fun t => t.results.items.getLast?).map fun v => ⟨p, v⟩
    else none

/-- The runs of an engine with their histories. -/
inductive Chronicle (env : Environment σ) (drift : σ → σ → Prop) (blocks : Stage → Block) :
    List Entry → Engine σ → Prop
  | start (world : σ) : Chronicle env drift blocks [] (Engine.start blocks world)
  | step {history : List Entry} {e e' : Engine σ} : Chronicle env drift blocks history e →
    Step env drift e e' → Chronicle env drift blocks (history ++ spent e e') e'

/-- The verdicts in a history that a task was given. -/
def recorded (history : List Entry) (i : Nat) : List Verdict :=
  (history.filter fun x => x.promise.task == i).map Entry.verdict

/-- The outcomes of the calls that were made for a task: what the network stage made of it each time
that it did not put it off. -/
def attempts (history : List Entry) (i : Nat) : List Verdict :=
  (history.filter fun x =>
    x.promise.task == i && x.promise.stage == .getFromNet && !x.verdict.isRoute).map Entry.verdict

theorem recorded_append (history history' : List Entry) (i : Nat) :
    recorded (history ++ history') i = recorded history i ++ recorded history' i := by
  rw [recorded, List.filter_append, List.map_append]
  rfl

theorem attempts_append (history history' : List Entry) (i : Nat) :
    attempts (history ++ history') i = attempts history i ++ attempts history' i := by
  rw [attempts, List.filter_append, List.map_append]
  rfl

theorem recorded_eq_nil {i : Nat} (h : ∀ x ∈ history, x.promise.task ≠ i) :
    recorded history i = [] := by
  rw [recorded, List.map_eq_nil_iff, List.filter_eq_nil_iff]
  intro x hx
  simp [h x hx]

/-- What was attempted was recorded. -/
theorem attempts_eq_nil_of_recorded {i : Nat} (h : recorded history i = []) :
    attempts history i = [] := by
  rw [recorded, List.map_eq_nil_iff, List.filter_eq_nil_iff] at h
  rw [attempts, List.map_eq_nil_iff, List.filter_eq_nil_iff]
  intro x hx hi
  simp only [Bool.and_eq_true] at hi
  exact h x hx hi.1.1

/-! ## What a step adds -/

/-- A step that uses no promise of a task adds nothing to the history of that task. -/
theorem recorded_spent_eq_nil {i : Nat}
    (h : ∀ p ∈ e.issued, p.task = i → e'.isOpen p = e.isOpen p) : recorded (spent e e') i = [] := by
  refine recorded_eq_nil fun x hx hi => ?_
  obtain ⟨p, hp, hsome⟩ := List.mem_filterMap.1 hx
  split at hsome
  · rename_i hopen
    obtain ⟨v, -, rfl⟩ := Option.map_eq_some_iff.1 hsome
    rw [h p hp hi, Bool.and_not_self] at hopen
    exact Bool.noConfusion hopen
  · cases hsome

/-- If no two promises have the same number, then the use of a promise is added. -/
theorem spent_eq_singleton (hn : (e.issued.map Promise.number).Nodup) {p : Promise} {v : Verdict}
    {results : List Verdict} {t' : Task} (hp : p ∈ e.issued) (ho : e.isOpen p = true)
    (hisOpen : ∀ q, e'.isOpen q = if q.number = p.number then false else e.isOpen q)
    (ht' : e'.tasks[p.task]? = some t') (hr : t'.results.items = results ++ [v]) :
    spent e e' = [⟨p, v⟩] := by
  obtain ⟨front, back, hsplit⟩ := List.append_of_mem hp
  rw [hsplit, List.map_append, List.map_cons, List.nodup_append, List.nodup_cons] at hn
  -- no other promise is used
  have hother : ∀ q : Promise, q.number ≠ p.number →
      (if e.isOpen q && !e'.isOpen q then
        (e'.tasks[q.task]?.bind fun t => t.results.items.getLast?).map fun v => (⟨q, v⟩ : Entry)
      else none) = none := by
    intro q hq
    rw [hisOpen, if_neg hq]
    simp
  have hfront : ∀ q ∈ front, q.number ≠ p.number := fun q hq heq =>
    hn.2.2 q.number (List.mem_map_of_mem hq) p.number List.mem_cons_self heq
  have hback : ∀ q ∈ back, q.number ≠ p.number := fun q hq heq =>
    hn.2.1.1 (heq ▸ List.mem_map_of_mem hq)
  rw [spent, hsplit, List.filterMap_append, List.filterMap_cons,
    List.filterMap_eq_nil_iff.2 fun q hq => hother q (hfront q hq),
    List.filterMap_eq_nil_iff.2 fun q hq => hother q (hback q hq)]
  simp [ho, hisOpen, ht', hr]

theorem spent_use (hl : Ledger e) {p : Promise} {v : Verdict} {results : List Verdict} {t' : Task}
    (hp : p ∈ e.issued) (ho : e.isOpen p = true)
    (hisOpen : ∀ q, e'.isOpen q = if q.number = p.number then false else e.isOpen q)
    (ht' : e'.tasks[p.task]? = some t') (hr : t'.results.items = results ++ [v]) :
    spent e e' = [⟨p, v⟩] :=
  spent_eq_singleton hl.nodup_numbers hp ho hisOpen ht' hr

/-- A step that leaves promises alone adds nothing. -/
theorem spent_eq_nil (h : ∀ p ∈ e.issued, e'.isOpen p = e.isOpen p) : spent e e' = [] := by
  refine List.filterMap_eq_nil_iff.2 fun p hp => ?_
  rw [h p hp, Bool.and_not_self]
  rfl

namespace Chronicle

theorem reachable (h : Chronicle env drift blocks history e) : Reachable env drift blocks e := by
  induction h with
  | start world => exact .start world
  | step _ hs ih => exact ih.step hs

/-- Every run has a history. -/
theorem exists_of_reachable (h : Reachable env drift blocks e) :
    ∃ history, Chronicle env drift blocks history e := by
  induction h with
  | start world => exact ⟨[], .start world⟩
  | step _ hs ih =>
    obtain ⟨history, h⟩ := ih
    exact ⟨_, h.step hs⟩

/-- **The history of a task is what it recorded.** -/
theorem results (h : Chronicle env drift blocks history e) (hb : ∀ s, (blocks s).Proper)
    (hc : e.cancelled = false) (i : Nat) :
    recorded history i = (e.tasks[i]?.map fun t => t.results.items).getD [] := by
  induction h with
  | start world => simp [Engine.start, recorded]
  | @step history e e' h hs ih =>
    have hc' := hs.frame.2.1 hc
    have hl := h.reachable.ledger hb hc'
    rw [recorded_append, ih hc']
    cases ht' : e'.tasks[i]? with
    | none =>
      -- there is no such task yet
      have hnone : e.tasks[i]? = none := by
        rw [Option.eq_none_iff_forall_not_mem]
        intro t ht
        obtain ⟨t', ht'', -⟩ := hs.grows i t ht
        rw [ht'] at ht''
        cases ht''
      rw [hnone, recorded_spent_eq_nil fun p hp hpi => ?_]
      · rfl
      · obtain ⟨t, ht, -⟩ := hl.promised p hp
        rw [hpi, hnone] at ht
        cases ht
    | some t' =>
      cases (h.reachable.effect hb hs hc).fate hl ht' with
      | use index x p m t hx hp ha ho hpi ht hd hr hdel hissued hisOpen =>
        subst hpi
        rw [spent_use hl (mem_issued hx hp) ho hisOpen ht' hr, ht]
        simp [recorded, hr]
      | deliver index x p v k t hx hr hp hpi ht heq hisOpen =>
        rw [recorded_spent_eq_nil fun q _ _ => congrFun hisOpen q, ht, heq, Option.map_some,
          Task.deliver_frame]
        exact List.append_nil _
      | create d hnone heq hisOpen =>
        rw [recorded_spent_eq_nil fun q _ _ => congrFun hisOpen q, hnone, heq]
        rfl
      | keep t ht hat hopen =>
        rw [recorded_spent_eq_nil hopen, ht, Option.map_some, Option.map_some, hat.results]
        exact List.append_nil _

end Chronicle

/-! ## After the engine was told to stop -/

/-- A step that neither gives promises nor finishes tasks. -/
structure Idle (e e' : Engine σ) : Prop where
  issued : e'.issued = e.issued
  isOpen : ∀ p, e'.isOpen p = true → e.isOpen p = true
  back : ∀ (i : Nat) (t' : Task), e'.tasks[i]? = some t' →
    ∃ t, e.tasks[i]? = some t ∧ t'.isFinished = t.isFinished

namespace Idle

theorem of_eq (issued : e'.issued = e.issued) (used : e'.used = e.used) (tasks : e'.tasks = e.tasks) :
    Idle e e' where
  issued
  isOpen p hp := by rwa [Engine.isOpen, used] at hp
  back i t' ht' := ⟨t', tasks ▸ ht', rfl⟩

theorem complete (e : Engine σ) (p : Promise) (m : Move) : Idle e (e.complete p m).2 := by
  by_cases ho : e.isOpen p = true
  · refine ⟨by rw [complete_eq]; rfl, fun q hq => ?_, fun i t' ht' => ?_⟩
    · rw [isOpen_complete ho] at hq
      split at hq
      · exact Bool.noConfusion hq
      · exact hq
    · rw [tasks_complete ho] at ht'
      split at ht'
      · obtain ⟨t, ht, rfl⟩ := Option.map_eq_some_iff.1 ht'
        refine ⟨t, ht, ?_⟩
        unfold Task.record ReplayLog.push
        split <;> rfl
      · exact ⟨t', ht', rfl⟩
  · rw [complete_of_used (by simpa using ho)]
    exact of_eq rfl rfl rfl

theorem deliver (e : Engine σ) (i : Nat) (v : Verdict) : Idle e (e.deliver i v).2 := by
  refine ⟨by rw [deliver_eq]; rfl, fun p hp => ?_, fun j t' ht' => ?_⟩
  · rw [deliver_eq] at hp
    exact hp
  · rw [tasks_deliver] at ht'
    split at ht'
    · obtain ⟨t, ht, rfl⟩ := Option.map_eq_some_iff.1 ht'
      exact ⟨t, ht, by rw [Task.deliver_frame]; rfl⟩
    · exact ⟨t', ht', rfl⟩

theorem instruct (env : Environment σ) (index : Nat) (e : Engine σ) (r : Routine) :
    Idle e (e.instruct env index r) := by
  have hissued := issued_instruct env index e r
  have hend : ∀ ending, e.instruct env index r = e.endHandler index ending →
      Idle e (e.instruct env index r) := fun ending h => by
    have he := h.trans (endHandler_eq e index ending)
    exact of_eq hissued (by rw [he]) (by rw [he])
  cases r with
  | finish ending => exact hend ending rfl
  | look p k =>
    cases hv : e.view? p with
    | none => exact hend .ok (by simp only [Engine.instruct, hv])
    | some view =>
      have hi : e.instruct env index (.look p k) = e.resume index (k view) := by
        simp only [Engine.instruct, hv]
      exact of_eq hissued (by rw [hi]; rfl) (by rw [hi]; rfl)
  | complete p m k =>
    have h := complete e p m
    exact ⟨hissued, h.isOpen, h.back⟩
  | deliver p v k =>
    have h := deliver e p.task v
    exact ⟨hissued, h.isOpen, h.back⟩
  | _ => exact of_eq hissued rfl rfl

/-- The worker closes deliveries when it stops, and finishes nothing. -/
theorem stopWorker (e : Engine σ) : Idle e e.stopWorker := by
  refine ⟨by rw [stopWorker_eq]; rfl, fun p hp => ?_, fun i t' ht' => ?_⟩
  · rw [stopWorker_eq] at hp
    exact hp
  · rw [tasks_stopWorker] at ht'
    generalize e.registry = l at ht'
    induction l generalizing e with
    | nil => exact ⟨t', ht', rfl⟩
    | cons j l ih =>
      obtain ⟨t, ht, hf⟩ := ih (e.updateTask j Task.close) ht'
      rw [tasks_updateTask] at ht
      split at ht
      · obtain ⟨t₀, ht₀, rfl⟩ := Option.map_eq_some_iff.1 ht
        exact ⟨t₀, ht₀, hf⟩
      · exact ⟨t, ht, hf⟩

end Idle

/-- **An engine that was told to stop gives no promises and finishes no tasks.** -/
theorem Step.idle (hs : Step env drift e e') (hc : e'.cancelled = true) : Idle e e' := by
  have hstop : e.cancelled = false → e'.cancelled = e.cancelled → Idle e e' := fun hfalse heq => by
    rw [heq, hfalse] at hc
    exact Bool.noConfusion hc
  cases hs with
  | submit d => exact .of_eq (by rw [submit_eq]; rfl) (by rw [submit_eq]) (by rw [submit_eq])
  | shutdown => exact .of_eq (by rw [shutdown_eq]; rfl) (by rw [shutdown_eq]) (by rw [shutdown_eq])
  | work c rest hfalse => exact hstop hfalse (by rw [handle_eq])
  | stop => exact .stopWorker e
  | take stage index rest hfalse => exact hstop hfalse (by rw [handOne_frame]; rfl)
  | openWindow stage window index rest hfalse => exact hstop hfalse rfl
  | gather stage w index rest hfalse => exact hstop hfalse rfl
  | closeWindow stage w hfalse => exact hstop hfalse (by rw [handWindow_eq]; rfl)
  | run index x r => exact .instruct env index e r
  | watch index => exact .of_eq (issued_updateHandler e index fun _ => rfl) rfl rfl
  | rescue index x ending error p => exact .complete e p _
  | read index => exact .of_eq (by rw [readBus_eq]; rfl) (by rw [readBus_eq]) (by rw [readBus_eq])
  | _ => exact .of_eq rfl rfl rfl

/-- Tasks that have finished are left alone: their deliveries are closed and their promises used. -/
structure Quiet (e : Engine σ) : Prop where
  closed : ∀ (i : Nat) (t : Task), e.tasks[i]? = some t → t.isFinished = true →
    t.delivered.completed = true
  used : ∀ p ∈ e.issued, ∀ t, e.tasks[p.task]? = some t → t.isFinished = true → e.isOpen p = false

theorem Reachable.quiet (he : Reachable env drift blocks e) (hb : ∀ s, (blocks s).Proper) :
    Quiet e := by
  have hrunning : ∀ {e : Engine σ}, Reachable env drift blocks e → e.cancelled = false → Quiet e := by
    intro e he hc
    refine ⟨fun i t ht hf => (((he.closings hb hc).closed i t ht).trans hf), fun p hp t ht hf => ?_⟩
    cases ho : e.isOpen p with
    | false => rfl
    | true => exact absurd (hf.symm.trans ((he.ledger hb hc).unfinished_of_open hp ho ht)) (by simp)
  induction he with
  | start world => exact hrunning (.start world) rfl
  | @step e e' he hs ih =>
    cases hc : e'.cancelled with
    | false => exact hrunning (he.step hs) hc
    | true =>
      have hidle := hs.idle hc
      refine ⟨fun i t' ht' hf => ?_, fun p hp t' ht' hf => ?_⟩
      · obtain ⟨t, ht, hft⟩ := hidle.back i t' ht'
        obtain ⟨t'', ht'', hg⟩ := hs.grows i t ht
        rw [ht'] at ht''
        cases ht''
        have hclosed := ih.closed i t ht (hft ▸ hf)
        exact hg.closed hclosed ▸ hclosed
      · obtain ⟨t, ht, hft⟩ := hidle.back p.task t' ht'
        have hused := ih.used p (hidle.issued ▸ hp) t ht (hft ▸ hf)
        cases ho : e'.isOpen p with
        | false => rfl
        | true => exact absurd ((hidle.isOpen p ho).symm.trans hused) (by simp)

/-- **What a finished task has come to, it had come to before the engine was told to stop.** -/
theorem Chronicle.before (h : Chronicle env drift blocks history e) (hb : ∀ s, (blocks s).Proper)
    {i : Nat} {t : Task} (ht : e.tasks[i]? = some t) (hf : t.isFinished = true) :
    ∃ history₀ e₀ t₀, Chronicle env drift blocks history₀ e₀ ∧ Steps env drift e₀ e ∧
      e₀.cancelled = false ∧ e₀.tasks[i]? = some t₀ ∧ t₀.isFinished = true ∧
      attempts history i = attempts history₀ i ∧ t.descriptor = t₀.descriptor ∧
      t.delivered = t₀.delivered := by
  induction h generalizing t with
  | start world => simp [Engine.start] at ht
  | @step history e e' h hs ih =>
    cases hc : e'.cancelled with
    | false => exact ⟨_, e', t, h.step hs, .refl, hc, ht, hf, rfl, rfl, rfl⟩
    | true =>
      have hidle := hs.idle hc
      have hquiet := h.reachable.quiet hb
      obtain ⟨t₁, ht₁, hf₁⟩ := hidle.back i t ht
      rw [hf] at hf₁
      obtain ⟨t', ht', hg⟩ := hs.grows i t₁ ht₁
      rw [ht] at ht'
      cases ht'
      obtain ⟨history₀, e₀, t₀, h₀, hsteps, hc₀, ht₀, hf₀, hattempts, hd, hdel⟩ := ih ht₁ hf₁.symm
      refine ⟨history₀, e₀, t₀, h₀, hsteps.tail hs, hc₀, ht₀, hf₀, ?_, hg.descriptor.trans hd,
        (hg.closed (hquiet.closed i t₁ ht₁ hf₁.symm)).trans hdel⟩
      -- the promises of the task were used before
      have hnone : attempts (spent e e') i = [] := by
        refine attempts_eq_nil_of_recorded (recorded_spent_eq_nil fun p hp hi => ?_)
        have hused := hquiet.used p hp t₁ (hi ▸ ht₁) hf₁.symm
        rw [hused, ← Bool.not_eq_true]
        exact fun ho => Bool.noConfusion (hused.symm.trans (hidle.isOpen p ho))
      rw [attempts_append, hnone, List.append_nil, hattempts]

end Engine
end RpcFlow
