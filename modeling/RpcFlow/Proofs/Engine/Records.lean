import RpcFlow.Proofs.Engine.Chronicle

/-!
# What is recorded, and by whom

A verdict enters the results of a task in one way only: a handler uses an open promise, or its
supervisor does.  This is so in every state of every run, also after the engine was told to stop, when
the accounts of stages and tasks are not kept any more.  So what holds of every use of a promise holds of
every entry of a history.

* `Engine.Granted` — what is known of promises in every state.
* `Engine.Recording`, `Engine.Step.recording` — what a step records.
* `Engine.Annals` — the histories of the runs from a given state; `Engine.Annals.results` — the history
  of a task and its results are the same.
-/

set_option autoImplicit false

namespace RpcFlow
namespace Engine

variable {σ : Type} {env : Environment σ} {drift : σ → σ → Prop} {blocks : Stage → Block}
  {e e' : Engine σ}

/-! ## Promises -/

/-- Promises have numbers of their own, are for tasks that there are, and are open only as long as these
have not finished. -/
structure Granted (e : Engine σ) : Prop where
  numbers : (e.issued.map Promise.number).Nodup
  tasks : ∀ p ∈ e.issued, ∃ t, e.tasks[p.task]? = some t ∧ p.descriptor = t.descriptor
  unfinished : ∀ p ∈ e.issued, e.isOpen p = true → ∀ t, e.tasks[p.task]? = some t →
    t.isFinished = false

theorem Reachable.granted (he : Reachable env drift blocks e) (hb : ∀ s, (blocks s).Proper) :
    Granted e := by
  have hunfinished : ∀ p ∈ e.issued, e.isOpen p = true → ∀ t, e.tasks[p.task]? = some t →
      t.isFinished = false := by
    intro p hp ho t ht
    cases hf : t.isFinished with
    | false => rfl
    | true => exact absurd (ho.symm.trans ((he.quiet hb).used p hp t ht hf)) (by simp)
  suffices h : (e.issued.map Promise.number).Nodup ∧
      ∀ p ∈ e.issued, ∃ t, e.tasks[p.task]? = some t ∧ p.descriptor = t.descriptor from
    ⟨h.1, h.2, hunfinished⟩
  clear hunfinished
  have hrunning : ∀ {e : Engine σ}, Reachable env drift blocks e → e.cancelled = false →
      (e.issued.map Promise.number).Nodup ∧
        ∀ p ∈ e.issued, ∃ t, e.tasks[p.task]? = some t ∧ p.descriptor = t.descriptor := by
    intro e he hc
    have hl := he.ledger hb hc
    refine ⟨hl.nodup_numbers, fun p hp => ?_⟩
    obtain ⟨t, ht, -, hd⟩ := hl.promised p hp
    exact ⟨t, ht, hd⟩
  induction he with
  | start world => exact hrunning (.start world) rfl
  | @step e e' he hs ih =>
    cases hc : e'.cancelled with
    | false => exact hrunning (he.step hs) hc
    | true =>
      rw [(hs.idle hc).issued]
      refine ⟨ih.1, fun p hp => ?_⟩
      obtain ⟨t, ht, hd⟩ := ih.2 p hp
      obtain ⟨t', ht', hg⟩ := hs.grows p.task t ht
      exact ⟨t', ht', hd.trans hg.descriptor.symm⟩

/-- Every handler acts through its own promises only. -/
theorem Reachable.keeps_own (he : Reachable env drift blocks e) (hb : ∀ s, (blocks s).Proper) :
    ∀ (index : Nat) (x : Handler), e.handlers[index]? = some x → x.Keeps (.own x.promises) := by
  induction he with
  | start world => exact fun index x hx => by simp [Engine.start] at hx
  | step he hs ih =>
    intro index x hx
    have hblocks := he.blocks_eq
    exact hs.keeps (C := fun _ ps => .own ps) (fun s p _ => hblocks ▸ (hb s).onTask p)
      (fun s ps _ => hblocks ▸ (hb s).onWindow ps) (fun _ _ _ => .own) ih hx

/-- The promises of every handler are for its stage. -/
theorem Reachable.stages (he : Reachable env drift blocks e) (hb : ∀ s, (blocks s).Proper) :
    ∀ (index : Nat) (x : Handler), e.handlers[index]? = some x → ∀ p ∈ x.promises,
      p.stage = x.stage := by
  induction he with
  | start world => exact fun index x hx => by simp [Engine.start] at hx
  | @step e e' he hs ih =>
    intro index x' hx'
    have hsame : e'.handlers = e.handlers → ∀ p ∈ x'.promises, p.stage = x'.stage :=
      fun hh => ih index x' (hh ▸ hx')
    -- a new handler comes after the others
    have hassign : ∀ (stage : Stage) (e₁ : Engine σ) (l : List Nat) (r : Routine),
        e'.handlers = e.handlers.push ⟨stage, (e₁.promises stage l).1, .running r, false⟩ →
        ∀ p ∈ x'.promises, p.stage = x'.stage := by
      intro stage e₁ l r hh
      rw [hh, Array.getElem?_push] at hx'
      split at hx'
      · rw [← Option.some.inj hx']
        exact fun p hp => (forall_promises hp).1
      · exact ih index x' hx'
    cases hs with
    | submit d => exact hsame (by rw [submit_eq])
    | shutdown => exact hsame (by rw [shutdown_eq])
    | work c rest => exact hsame (by rw [handle_eq])
    | stop => exact hsame (by rw [stopWorker_eq])
    | read i => exact hsame (by rw [readBus_eq])
    | rescue i x ending error p => exact hsame (by rw [complete_eq])
    | take stage i rest =>
      cases ht : (e.setLoop stage { e.loop stage with queue := rest }).tasks[i]? with
      | none => exact hsame (by rw [handOne_of_none stage ht]; rfl)
      | some t =>
        exact hassign stage _ [i] _ (congrArg Engine.handlers (handOne_eq stage ht).2)
    | closeWindow stage w =>
      exact hassign stage _ w.members _ (congrArg Engine.handlers (handWindow_eq _ stage w.members))
    | run i x r hx hr =>
      by_cases hi : i = index
      · subst hi
        have hkeeps := he.keeps_own hb i x hx
        rw [Handler.Keeps, hr] at hkeeps
        obtain ⟨state, hx'', -⟩ := keeps_instruct hx hkeeps (show e.Answers env _ from .own)
        rw [hx'] at hx''
        cases hx''
        exact ih i x hx
      · rw [handlers_instruct hi] at hx'
        exact ih index x' hx'
    | watch i =>
      simp only [updateHandler, Array.getElem?_modify] at hx'
      split at hx'
      · obtain ⟨x, hx, rfl⟩ := Option.map_eq_some_iff.1 hx'
        exact ih index x hx
      · exact ih index x' hx'
    | _ => exact hsame rfl

/-! ## What a step records -/

/-- What a step records: nothing, or the verdict of a promise that it uses. -/
inductive Recording (e e' : Engine σ) : Prop
  | none : spent e e' = [] →
    (∀ (i : Nat) (t' : Task), e'.tasks[i]? = some t' → t'.results.items = [] ∨
      ∃ t, e.tasks[i]? = some t ∧ t'.descriptor = t.descriptor ∧
        t'.results.items = t.results.items) → Recording e e'
  | use (index : Nat) (x : Handler) (p : Promise) (m : Move) :
    e.handlers[index]? = some x → p ∈ x.promises → x.AboutTo p m → e.isOpen p = true →
    spent e e' = [⟨p, p.verdict m⟩] →
    (∀ (i : Nat) (t' : Task), e'.tasks[i]? = some t' → ∃ t, e.tasks[i]? = some t ∧
      t'.descriptor = t.descriptor ∧
      t'.results.items =
        if p.task = i then t.results.items ++ [p.verdict m] else t.results.items) → Recording e e'

namespace Recording

theorem of_eq (used : e'.used = e.used)
    (tasks : ∀ (i : Nat) (t' : Task), e'.tasks[i]? = some t' → ∃ t, e.tasks[i]? = some t ∧
      t'.descriptor = t.descriptor ∧ t'.results.items = t.results.items) : Recording e e' :=
  .none (spent_eq_nil fun p _ => by rw [isOpen, isOpen, used]) fun i t' ht' => .inr (tasks i t' ht')

theorem of_tasks (used : e'.used = e.used) (tasks : e'.tasks = e.tasks) : Recording e e' :=
  of_eq used fun _ t' ht' => ⟨t', tasks ▸ ht', rfl, rfl⟩

/-- The use of a promise, or an attempt at it. -/
theorem of_complete (hg : Granted e) {index : Nat} {x : Handler} {p : Promise} {m : Move}
    (hx : e.handlers[index]? = some x) (hp : p ∈ x.promises) (ha : x.AboutTo p m)
    (tasks : e'.tasks = (e.complete p m).2.tasks) (used : e'.used = (e.complete p m).2.used) :
    Recording e e' := by
  by_cases ho : e.isOpen p = true
  · have hpx := mem_issued hx hp
    obtain ⟨t, ht, -⟩ := hg.tasks p hpx
    have hopen : t.results.completed = false := hg.unfinished p hpx ho t ht
    have hisOpen : ∀ q, e'.isOpen q = if q.number = p.number then false else e.isOpen q := by
      intro q
      rw [← isOpen_complete ho m q, isOpen, isOpen, used]
    have hrecord := Task.record_of_open hopen (p.verdict m)
    have ht' : e'.tasks[p.task]? = some (t.record (p.verdict m)) := by
      rw [tasks, tasks_complete ho, if_pos rfl, ht]
      rfl
    have hd : (t.record (p.verdict m)).descriptor = t.descriptor := by rw [hrecord]
    have hresults : (t.record (p.verdict m)).results.items = t.results.items ++ [p.verdict m] := by
      rw [hrecord]
    refine .use index x p m hx hp ha ho
      (spent_eq_singleton hg.numbers hpx ho hisOpen ht' hresults) fun i u hu => ?_
    rw [tasks, tasks_complete ho] at hu
    split at hu
    · rename_i hpi
      rw [← hpi, ht] at hu
      cases hu
      exact ⟨t, hpi ▸ ht, hd, by rw [if_pos hpi]; exact hresults⟩
    · rename_i hpi
      exact ⟨u, hu, rfl, by rw [if_neg hpi]⟩
  · rw [complete_of_used (by simpa using ho)] at tasks used
    exact of_tasks used tasks

theorem of_deliver {i : Nat} {v : Verdict} (tasks : e'.tasks = (e.deliver i v).2.tasks)
    (used : e'.used = e.used) : Recording e e' := by
  refine of_eq used fun j t' ht' => ?_
  rw [tasks, tasks_deliver] at ht'
  split at ht'
  · obtain ⟨t, ht, rfl⟩ := Option.map_eq_some_iff.1 ht'
    exact ⟨t, ht, by rw [Task.deliver_frame], by rw [Task.deliver_frame]⟩
  · exact ⟨t', ht', rfl, rfl⟩

/-- An instruction of a handler. -/
theorem of_instruct (hg : Granted e) {index : Nat} {x : Handler} {r : Routine}
    (hx : e.handlers[index]? = some x) (hr : x.state = .running r) (hin : r.Within x.promises) :
    Recording e (e.instruct env index r) := by
  have hend : ∀ ending, e.instruct env index r = e.endHandler index ending →
      Recording e (e.instruct env index r) := fun ending h => by
    have he := h.trans (endHandler_eq e index ending)
    exact of_tasks (by rw [he]) (by rw [he])
  cases r with
  | finish ending => exact hend ending rfl
  | look p k =>
    cases hv : e.view? p with
    | none => exact hend .ok (by simp only [instruct, hv])
    | some view =>
      have hi : e.instruct env index (.look p k) = e.resume index (k view) := by
        simp only [instruct, hv]
      exact of_tasks (by rw [hi]; rfl) (by rw [hi]; rfl)
  | complete p m k => exact of_complete hg hx hin.1.1 (.complete m k hr) rfl rfl
  | deliver p v k =>
    exact of_deliver rfl ((congrArg Engine.used (deliver_eq e p.task v)).trans rfl)
  | _ => exact of_tasks rfl rfl

end Recording

/-- **A step records nothing, or the verdict of a promise that it uses**, also after the engine was told
to stop. -/
theorem Step.recording (hs : Step env drift e e') (he : Reachable env drift blocks e)
    (hb : ∀ s, (blocks s).Proper) : Recording e e' := by
  have hg := he.granted hb
  cases hc : e'.cancelled with
  | false =>
    cases he.effect hb hs hc with
    | use index x p m t hx hp ha ho ht htasks hissued hisOpen =>
      obtain ⟨t', ht', -⟩ := hs.grows p.task t ht
      have hi := htasks p.task t' ht'
      rw [if_pos rfl] at hi
      refine .use index x p m hx hp ha ho
        (spent_eq_singleton hg.numbers (mem_issued hx hp) ho hisOpen ht' hi.2.1) fun i u hu => ?_
      have hi := htasks i u hu
      split at hi
      · rename_i hpi
        exact ⟨t, hpi ▸ ht, hi.1, by rw [if_pos hpi]; exact hi.2.1⟩
      · rename_i hpi
        exact ⟨u, hi, rfl, by rw [if_neg hpi]⟩
    | deliver index x p v k t hx hr hp ht htasks hissued hisOpen =>
      refine .none (spent_eq_nil fun q _ => congrFun hisOpen q) fun i u hu => .inr ?_
      have hi := htasks i u hu
      split at hi
      · rename_i hpi
        rw [hi]
        exact ⟨t, hpi ▸ ht, by rw [Task.deliver_frame], by rw [Task.deliver_frame]⟩
      · exact ⟨u, hi, rfl, rfl⟩
    | create d htasks hissued hisOpen =>
      refine .none (spent_eq_nil fun q _ => congrFun hisOpen q) fun i u hu => ?_
      rw [htasks, Array.getElem?_push] at hu
      split at hu
      · cases hu
        exact .inl rfl
      · exact .inr ⟨u, hu, rfl, rfl⟩
    | rest htasks hissued =>
      refine .none (spent_eq_nil fun q hq => (hissued q hq).2) fun i u hu => .inr ?_
      obtain ⟨t, ht, hat⟩ := htasks i u hu
      exact ⟨t, ht, hat.descriptor, hat.results⟩
  | true =>
    have hstop : e.cancelled = false → e'.cancelled = e.cancelled → Recording e e' :=
      fun hfalse heq => by
        rw [heq, hfalse] at hc
        exact Bool.noConfusion hc
    cases hs with
    | submit d => exact .of_tasks (by rw [submit_eq]) (by rw [submit_eq])
    | shutdown => exact .of_tasks (by rw [shutdown_eq]) (by rw [shutdown_eq])
    | work c rest hfalse => exact hstop hfalse (by rw [handle_eq])
    | stop =>
      refine .of_eq (by rw [stopWorker_eq]) fun i t' ht' => ?_
      rw [getElem?_stopWorker] at ht'
      split at ht'
      · obtain ⟨t, ht, rfl⟩ := Option.map_eq_some_iff.1 ht'
        exact ⟨t, ht, rfl, rfl⟩
      · exact ⟨t', ht', rfl, rfl⟩
    | take stage index rest hfalse => exact hstop hfalse (by rw [handOne_frame]; rfl)
    | openWindow stage window index rest hfalse => exact hstop hfalse rfl
    | gather stage w index rest hfalse => exact hstop hfalse rfl
    | closeWindow stage w hfalse => exact hstop hfalse (by rw [handWindow_eq]; rfl)
    | run index x r hx hr =>
      have hkeeps := he.keeps_own hb index x hx
      rw [Handler.Keeps, hr] at hkeeps
      exact .of_instruct hg hx hr hkeeps
    | rescue index x ending error p hx hst herr hp =>
      exact .of_complete hg hx hp (.rescue ending error hst herr) rfl rfl
    | read index => exact .of_tasks (by rw [readBus_eq]) (by rw [readBus_eq])
    | _ => exact .of_tasks rfl rfl

/-! ## Histories -/

/-- The runs from a state, and the promises that are used in them, each with its verdict. -/
inductive Annals (env : Environment σ) (drift : σ → σ → Prop) (e₀ : Engine σ) :
    List Entry → Engine σ → Prop
  | start : Annals env drift e₀ [] e₀
  | step {history : List Entry} {e e' : Engine σ} : Annals env drift e₀ history e →
    Step env drift e e' → Annals env drift e₀ (history ++ spent e e') e'

namespace Annals

variable {e₀ : Engine σ} {history : List Entry}

theorem steps (h : Annals env drift e₀ history e) : Steps env drift e₀ e := by
  induction h with
  | start => exact .refl
  | step _ hs ih => exact ih.tail hs

theorem exists_of_steps (h : Steps env drift e₀ e) : ∃ history, Annals env drift e₀ history e := by
  induction h with
  | refl => exact ⟨[], .start⟩
  | tail _ hs ih =>
    obtain ⟨history, h⟩ := ih
    exact ⟨_, h.step hs⟩

/-- Every entry is about a task that there is, and bears its request. -/
theorem descriptors (h : Annals env drift e₀ history e) (he₀ : Reachable env drift blocks e₀)
    (hb : ∀ s, (blocks s).Proper) : ∀ x ∈ history, ∃ t, e.tasks[x.promise.task]? = some t ∧
      t.descriptor = x.promise.descriptor := by
  induction h with
  | start => exact fun x hx => absurd hx List.not_mem_nil
  | @step history e e' h hs ih =>
    have he := he₀.steps h.steps
    have hkept : ∀ p : Promise,
        (∃ t, e.tasks[p.task]? = some t ∧ t.descriptor = p.descriptor) →
        ∃ t, e'.tasks[p.task]? = some t ∧ t.descriptor = p.descriptor := by
      rintro p ⟨t, ht, hd⟩
      obtain ⟨t', ht', hg⟩ := hs.grows _ t ht
      exact ⟨t', ht', hg.descriptor.trans hd⟩
    intro x hx
    rcases List.mem_append.1 hx with hx | hx
    · exact hkept x.promise (ih x hx)
    · cases hs.recording he hb with
      | none hspent => rw [hspent] at hx; exact absurd hx List.not_mem_nil
      | use index y p m hy hp ha ho hspent htasks =>
        rw [hspent, List.mem_singleton] at hx
        subst hx
        obtain ⟨t, ht, hd⟩ := (he.granted hb).tasks p (mem_issued hy hp)
        exact hkept p ⟨t, ht, hd.symm⟩

/-- **The history of a task and its results are the same**, in every state. -/
theorem results {world : σ} (h : Annals env drift (Engine.start blocks world) history e)
    (hb : ∀ s, (blocks s).Proper) {i : Nat} {t : Task} (ht : e.tasks[i]? = some t) :
    recorded history i = t.results.items := by
  induction h generalizing t with
  | start => simp [Engine.start] at ht
  | @step history e e' h hs ih =>
    have he : Reachable env drift blocks e := (Reachable.start world).steps h.steps
    have hempty : recorded [] i = [] := rfl
    rw [recorded_append]
    cases hs.recording he hb with
    | none hspent htasks =>
      rw [hspent, hempty, List.append_nil]
      cases hi : e.tasks[i]? with
      | none =>
        -- the task is new
        have hnew : recorded history i = [] := by
          refine recorded_eq_nil fun x hx hxi => ?_
          obtain ⟨u, hu, -⟩ := h.descriptors (.start world) hb x hx
          rw [hxi, hi] at hu
          cases hu
        rcases htasks i t ht with hnil | ⟨u, hu, -⟩
        · rw [hnew, hnil]
        · rw [hi] at hu
          cases hu
      | some u =>
        rw [ih hi]
        rcases htasks i t ht with hnil | ⟨u', hu', -, hr⟩
        · obtain ⟨t', ht', hg⟩ := hs.grows i u hi
          rw [ht] at ht'
          cases ht'
          have hprefix := hg.results
          rw [hnil] at hprefix ⊢
          exact List.prefix_nil.1 hprefix
        · rw [hi] at hu'
          cases hu'
          exact hr.symm
    | use index x p m hx hp ha ho hspent htasks =>
      obtain ⟨u, hu, -, hr⟩ := htasks i t ht
      rw [hspent, ih hu, hr]
      by_cases hpi : p.task = i
      · simp [recorded, hpi]
      · simp [recorded, hpi]

end Annals
end Engine
end RpcFlow
