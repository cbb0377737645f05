import RpcFlow.Proofs.Engine.Accounting

/-!
# Finishing a task

A task finishes when no stage holds it any more.  This is known in several places: both of its logs
are closed, it leaves the registry, and the time tracker is told about it.

* `Engine.Closings` — the invariant: all these places agree.
* `Engine.Reachable.ledger`, `Engine.Reachable.closings` — both invariants hold in every state of
  every run before the engine is told to stop.
* `Engine.Accounts`, `Engine.holding_accounts` — **what holds a task is exactly its outstanding
  work**; so a task finishes once, when there is nothing left to do, and no verdict is lost.
-/

set_option autoImplicit false

namespace RpcFlow

/-- A world in which every question crashes. -/
def Environment.crashing : Environment Unit where
  fetch _ _ _ w := (.ofMillis 0, .crashed "no wire", w)
  readCache _ _ w := (.crashed "no cache", w)
  writeCache _ _ _ _ w := (.crashed "no cache", w)
  decode _ _ w := (.crashed "no reader", w)
  validate _ w := (.crashed "no validator", w)

/-- A call without parameters. -/
def ping : Descriptor where
  method := "ping"
  http := .post
  query := []
  request := .bare 1 "ping"
  flat := "\x7b\x7d"
  cacheKey := "\x7b\x7d"
  resultType := .any
  transport := "wire"
  strategy := .fallback 0
  expiresAfter := .longest
  envelope := .standard
  headers := []
  bindable := true
  maxBatchSize := 1

namespace Engine

variable {σ : Type} {e e' : Engine σ}

/-! ## Finishing -/

/-- Is there a task here that has not finished? -/
def isLive (e : Engine σ) (i : Nat) : Bool := e.tasks[i]?.any fun t => !t.isFinished

/-- What the time tracker is told about a task. -/
def Tells (e : Engine σ) (f : Finish) (i : Nat) : Prop :=
  ∃ t, e.tasks[i]? = some t ∧ f.strategy = t.descriptor.strategy.label ∧ f.method = t.method ∧
    f.elapsed = t.elapsed f.moment

/-- A task finishes for everyone at once: its delivery is closed, it leaves the registry, and the
time tracker is told, in the order in which tasks finish. -/
structure Closings (e : Engine σ) : Prop where
  closed : ∀ (i : Nat) (t : Task), e.tasks[i]? = some t → t.delivered.completed = t.isFinished
  registry : e.registry = (List.range e.tasks.size).filter e.isLive
  finishes : ∃ order : List Nat, order.Nodup ∧
    (∀ i, i ∈ order ↔ ∃ t, e.tasks[i]? = some t ∧ t.isFinished = true) ∧
    List.Forall₂ e.Tells e.finishes order

theorem isLive_of_some {i : Nat} {t : Task} (h : e.tasks[i]? = some t) :
    e.isLive i = !t.isFinished := by
  rw [isLive, h]; rfl

/-- What is told about a task holds as long as the task keeps its request and its start. -/
theorem Tells.later {f : Finish} {i : Nat} (h : e.Tells f i)
    (hkeep : ∀ t, e.tasks[i]? = some t → ∃ t', e'.tasks[i]? = some t' ∧ t'.started = t.started ∧
      t'.descriptor = t.descriptor) : e'.Tells f i := by
  obtain ⟨t, ht, hstrategy, hmethod, helapsed⟩ := h
  obtain ⟨t', ht', hs, hd⟩ := hkeep t ht
  refine ⟨t', ht', ?_, ?_, ?_⟩
  · rw [hd, hstrategy]
  · rw [hmethod, Task.method, Task.method, hd]
  · rw [helapsed, Task.elapsed, Task.elapsed, hs]

namespace Closings

theorem start (blocks : Stage → Block) (world : σ) : Closings (Engine.start blocks world) where
  closed := fun i t ht => by simp [Engine.start] at ht
  registry := rfl
  finishes := ⟨[], List.nodup_nil, fun i => by simp [Engine.start], .nil⟩

/-- Nothing changes as long as tasks neither finish nor come to life. -/
theorem of_tasks (h : Closings e) (hsize : e'.tasks.size = e.tasks.size)
    (htasks : ∀ (i : Nat) (t' : Task), e'.tasks[i]? = some t' → ∃ t, e.tasks[i]? = some t ∧
      t'.started = t.started ∧ t'.descriptor = t.descriptor ∧ t'.isFinished = t.isFinished ∧
      t'.delivered.completed = t.delivered.completed)
    (hreg : e'.registry = e.registry) (hfin : e'.finishes = e.finishes) : Closings e' := by
  -- both arrays have a task in the same places
  have hback : ∀ (i : Nat) (t : Task), e.tasks[i]? = some t → ∃ t', e'.tasks[i]? = some t' ∧
      t'.started = t.started ∧ t'.descriptor = t.descriptor ∧ t'.isFinished = t.isFinished := by
    intro i t ht
    have hi : i < e'.tasks.size := by rw [hsize]; exact (Array.getElem?_eq_some_iff.1 ht).1
    obtain ⟨t₀, ht₀, h₁, h₂, h₃, -⟩ := htasks i _ (Array.getElem?_eq_getElem hi)
    rw [ht] at ht₀
    cases ht₀
    exact ⟨_, Array.getElem?_eq_getElem hi, h₁, h₂, h₃⟩
  refine { closed := ?_, registry := ?_, finishes := ?_ }
  · intro i t' ht'
    obtain ⟨t, ht, -, -, hf, hd⟩ := htasks i t' ht'
    rw [hd, hf]
    exact h.closed i t ht
  · rw [hreg, h.registry, hsize]
    refine List.filter_congr fun i hi => ?_
    have hi' : i < e.tasks.size := List.mem_range.1 hi
    obtain ⟨t', ht', -, -, hf⟩ := hback i _ (Array.getElem?_eq_getElem hi')
    rw [isLive_of_some ht', isLive_of_some (Array.getElem?_eq_getElem hi'), hf]
  · obtain ⟨order, hn, hm, hall⟩ := h.finishes
    refine ⟨order, hn, fun i => (hm i).trans ?_, ?_⟩
    · constructor
      · rintro ⟨t, ht, hf⟩
        obtain ⟨t', ht', -, -, hf'⟩ := hback i t ht
        exact ⟨t', ht', hf'.trans hf⟩
      · rintro ⟨t', ht', hf⟩
        obtain ⟨t, ht, -, -, hf', -⟩ := htasks i t' ht'
        exact ⟨t, ht, hf'.symm.trans hf⟩
    · rw [hfin]
      refine hall.imp fun f i hfi => hfi.later fun t ht => ?_
      obtain ⟨t', ht', hs, hd, -⟩ := hback i t ht
      exact ⟨t', ht', hs, hd⟩

theorem of_eq (h : Closings e) (tasks : e'.tasks = e.tasks) (registry : e'.registry = e.registry)
    (finishes : e'.finishes = e.finishes) : Closings e' :=
  h.of_tasks (by rw [tasks]) (fun i t ht => ⟨t, tasks ▸ ht, rfl, rfl, rfl, rfl⟩) registry finishes

theorem complete (h : Closings e) (p : Promise) (m : Move) : Closings (e.complete p m).2 := by
  by_cases ho : e.isOpen p = true
  swap
  · rw [complete_of_used (by simpa using ho)]
    exact h
  refine h.of_tasks ?_ ?_ (by rw [complete_eq]) (by rw [complete_eq])
  · rw [complete_of_isOpen ho, Array.size_modify]
  · intro i t ht
    rw [tasks_complete ho] at ht
    split at ht
    · obtain ⟨t', ht', rfl⟩ := Option.map_eq_some_iff.1 ht
      refine ⟨t', ht', rfl, rfl, ?_, rfl⟩
      simp only [Task.isFinished, Task.record, ReplayLog.push]
      split <;> rfl
    · exact ⟨t, ht, rfl, rfl, rfl, rfl⟩

theorem deliver (h : Closings e) (i : Nat) (v : Verdict) : Closings (e.deliver i v).2 := by
  refine h.of_tasks ?_ ?_ (by rw [deliver_eq]) (by rw [deliver_eq])
  · cases ht : e.tasks[i]? with
    | none => rw [deliver_of_none ht]
    | some t =>
      cases hd : (t.deliver v).2 with
      | false => rw [deliver_of_later ht hd]; rfl
      | true => rw [deliver_of_first ht hd, Array.size_modify]
  · intro j t ht
    rw [tasks_deliver] at ht
    split at ht
    · obtain ⟨t', ht', rfl⟩ := Option.map_eq_some_iff.1 ht
      refine ⟨t', ht', ?_⟩
      rw [Task.deliver_eq]
      split <;> exact ⟨rfl, rfl, rfl, rfl⟩
    · exact ⟨t, ht, rfl, rfl, rfl, rfl⟩

/-- A new task is live and comes last. -/
theorem create (h : Closings e) (d : Descriptor) : Closings (e.create d).2 := by
  refine { closed := ?_, registry := ?_, finishes := ?_ }
  · intro j t ht
    rw [getElem?_create] at ht
    split at ht
    · cases ht; rfl
    · exact h.closed j t ht
  · rw [registry_create, tasks_create, Array.size_push, List.range_succ, List.filter_append,
      h.registry]
    congr 1
    · refine List.filter_congr fun i hi => ?_
      have hi' : i < e.tasks.size := List.mem_range.1 hi
      have ht := Array.getElem?_eq_getElem hi'
      rw [isLive_of_some ht, isLive_of_some (getElem?_create_of_some ht d)]
    · have hl : (e.create d).2.isLive e.tasks.size = true := by
        rw [isLive, getElem?_create, if_pos rfl]; rfl
      rw [List.filter_cons_of_pos hl, List.filter_nil]
  · obtain ⟨order, hn, hm, hall⟩ := h.finishes
    refine ⟨order, hn, fun i => (hm i).trans ?_, ?_⟩
    · constructor
      · rintro ⟨t, ht, hf⟩
        exact ⟨t, getElem?_create_of_some ht d, hf⟩
      · rintro ⟨t, ht, hf⟩
        rw [getElem?_create] at ht
        split at ht
        · cases ht
          exact absurd hf (by simp [Task.isFinished, Task.fresh, ReplayLog.empty])
        · exact ⟨t, ht, hf⟩
    · rw [finishes_create]
      exact hall.imp fun f i hfi => hfi.later fun t ht =>
        ⟨t, getElem?_create_of_some ht d, rfl, rfl⟩

/-- A task that no stage holds any more finishes; it had not finished before. -/
theorem finish (h : Closings e) {i : Nat} {t : Task} (ht : e.tasks[i]? = some t)
    (hlive : t.isFinished = false) {source : Option Stage} {next : List Stage}
    (hdone : t.without source ++ next = []) : Closings (e.place i source next) := by
  obtain ⟨-, hst, hd, -, -⟩ := t.moved_frame source next
  obtain ⟨hreg, hfin⟩ := registry_place source next ht
  rw [if_pos hdone] at hreg hfin
  have hmoved : (t.moved source next).isFinished = true :=
    (Task.isFinished_moved hlive source next).2 hdone
  have hself : (e.place i source next).tasks[i]? = some (t.moved source next) := by
    rw [tasks_place source next ht, if_pos rfl]
  have hne : ∀ j, i ≠ j → (e.place i source next).tasks[j]? = e.tasks[j]? := by
    intro j hij
    rw [tasks_place source next ht, if_neg hij]
  refine { closed := ?_, registry := ?_, finishes := ?_ }
  · intro j t' ht'
    rw [tasks_place source next ht] at ht'
    split at ht'
    · cases ht'
      rw [hmoved, Task.moved, if_pos hdone]; rfl
    · exact h.closed j t' ht'
  · rw [hreg, h.registry, size_place,
      (List.Nodup.filter _ List.nodup_range).erase_eq_filter, List.filter_filter]
    refine List.filter_congr fun j _ => ?_
    by_cases hij : i = j
    · rw [← hij, isLive_of_some hself, hmoved]
      simp
    · rw [isLive, isLive, hne j hij]
      simp [Ne.symm hij]
  · obtain ⟨order, hn, hm, hall⟩ := h.finishes
    have hnew : i ∉ order := by
      intro hi
      obtain ⟨t', ht', hf⟩ := (hm i).1 hi
      rw [ht] at ht'
      cases ht'
      rw [hlive] at hf
      exact Bool.noConfusion hf
    refine ⟨i :: order, List.nodup_cons.2 ⟨hnew, hn⟩, fun j => ?_, ?_⟩
    · by_cases hij : i = j
      · rw [← hij]
        exact ⟨fun _ => ⟨_, hself, hmoved⟩, fun _ => List.mem_cons_self⟩
      · rw [hne j hij, List.mem_cons, or_iff_right (Ne.symm hij)]
        exact hm j
    · rw [hfin]
      refine .cons ⟨_, hself, by rw [hd], by rw [Task.method, Task.method, hd],
        by rw [Task.elapsed, Task.elapsed, hst]⟩ ?_
      rw [List.forall₂_iff_get] at hall ⊢
      refine ⟨hall.1, fun k h₁ h₂ => (hall.2 k h₁ h₂).later fun t' ht' => ⟨t', ?_, rfl, rfl⟩⟩
      rw [hne _ fun hik => hnew (hik ▸ List.get_mem order ⟨k, h₂⟩)]
      exact ht'

/-- A task that is placed finishes or goes on. -/
theorem place (h : Closings e) {i : Nat} {t : Task} (ht : e.tasks[i]? = some t)
    (hlive : t.isFinished = false) (source : Option Stage) (next : List Stage) :
    Closings (e.place i source next) := by
  by_cases hdone : t.without source ++ next = []
  · exact h.finish ht hlive hdone
  · obtain ⟨-, hst, hd, -, -⟩ := t.moved_frame source next
    obtain ⟨hreg, hfin⟩ := registry_place source next ht
    rw [if_neg hdone] at hreg hfin
    refine h.of_tasks (size_place e i source next) ?_ hreg hfin
    intro j t' ht'
    rw [tasks_place source next ht] at ht'
    split at ht'
    · rename_i hij
      cases ht'
      exact ⟨t, hij ▸ ht, hst, hd, by rw [Task.moved, if_neg hdone]; rfl,
        by rw [Task.moved, if_neg hdone]⟩
    · exact ⟨t', ht', rfl, rfl, rfl, rfl⟩

end Closings

/-! ## Every step keeps the closings -/

/-- One instruction of a routine. -/
theorem Closings.instruct (h : Closings e) (env : Environment σ) (index : Nat) (r : Routine) :
    Closings (e.instruct env index r) := by
  cases r with
  | finish ending =>
    simp only [Engine.instruct]
    rw [endHandler_eq]
    exact h.of_eq rfl rfl rfl
  | look p k =>
    simp only [Engine.instruct]
    split
    · exact h.of_eq rfl rfl rfl
    · rw [endHandler_eq]
      exact h.of_eq rfl rfl rfl
  | complete p m k => exact (h.complete p m).of_eq rfl rfl rfl
  | deliver p v k => exact (h.deliver p.task v).of_eq rfl rfl rfl
  | _ => exact h.of_eq rfl rfl rfl

theorem Closings.step {env : Environment σ} {drift : σ → σ → Prop} (h : Closings e)
    (hl : Ledger e) (hc : e'.cancelled = false) (hs : Step env drift e e') : Closings e' := by
  cases hs with
  | submit d => rw [submit_eq]; exact h.of_eq rfl rfl rfl
  | shutdown => rw [shutdown_eq]; exact h.of_eq rfl rfl rfl
  | work c rest hc' hs' hi =>
    have h' : Closings { e with inbox := rest } := h.of_eq rfl rfl rfl
    cases c with
    | submit d reply =>
      simp only [handle]
      rcases accept_cases { e with inbox := rest } d with ⟨i, t, -, -, ha⟩ | ⟨-, ha⟩
      · rw [ha]
        exact h'.of_eq rfl rfl rfl
      · rw [ha]
        exact (h'.create d).of_eq rfl rfl rfl
    | transition i source verdict =>
      obtain ⟨t, ht, -, hlive⟩ := hl.task_of_transition hi
      exact Closings.place h' ht hlive (some source) verdict.next
  | stop hc' => rw [stopWorker_eq] at hc; rw [hc'] at hc; exact Bool.noConfusion hc
  | take stage index rest => rw [handOne_frame]; exact h.of_eq rfl rfl rfl
  | closeWindow stage w => rw [handWindow_eq]; exact h.of_eq rfl rfl rfl
  | run index x r => exact h.instruct env index r
  | rescue index x ending error p => exact h.complete p _
  | read index => rw [readBus_eq]; exact h.of_eq rfl rfl rfl
  | _ => exact h.of_eq rfl rfl rfl

section

variable {env : Environment σ} {drift : σ → σ → Prop} {blocks : Stage → Block}

theorem Reachable.ledger (he : Reachable env drift blocks e) (hb : ∀ s, (blocks s).Proper)
    (hc : e.cancelled = false) : Ledger e := by
  induction he with
  | start world => exact .start blocks world
  | step he hs ih =>
    have hc' := hs.frame.2.1 hc
    exact (ih hc').step (he.blocks_eq ▸ hb) (he.running hc') hc hs

theorem Reachable.closings (he : Reachable env drift blocks e) (hb : ∀ s, (blocks s).Proper)
    (hc : e.cancelled = false) : Closings e := by
  induction he with
  | start world => exact .start blocks world
  | step he hs ih =>
    have hc' := hs.frame.2.1 hc
    exact (ih hc').step (he.ledger hb hc') hc hs

/-! ## The accounts -/

/-- The accounts of an engine. -/
structure Accounts (e : Engine σ) : Prop where
  /-- A task is held by the stages of its outstanding work, each as often as there is work. -/
  held : ∀ (i : Nat) (t : Task), e.tasks[i]? = some t → t.holding.Perm (e.outstanding i)
  /-- It has finished exactly when nothing is outstanding. -/
  finished : ∀ (i : Nat) (t : Task), e.tasks[i]? = some t →
    (t.isFinished = true ↔ e.outstanding i = [])
  /-- There is no work for a task that does not exist. -/
  none : ∀ i, e.tasks[i]? = none → e.outstanding i = []
  /-- The registry holds exactly the unfinished tasks, each once. -/
  registered : e.registry.Nodup ∧
    ∀ i, i ∈ e.registry ↔ ∃ t, e.tasks[i]? = some t ∧ t.isFinished = false
  /-- Delivery is open as long as the task has not finished. -/
  closed : ∀ (i : Nat) (t : Task), e.tasks[i]? = some t → t.delivered.completed = t.isFinished
  /-- The time tracker was told once about every task that has finished, and about no other. -/
  told : ∃ order : List Nat, order.Nodup ∧
    (∀ i, i ∈ order ↔ ∃ t, e.tasks[i]? = some t ∧ t.isFinished = true) ∧
    List.Forall₂ e.Tells e.finishes order
  /-- The results of a task take every verdict that an open promise can still give. -/
  open_results : ∀ p ∈ e.issued, e.isOpen p = true → ∃ t, e.tasks[p.task]? = some t ∧
    ∀ m, (t.record (p.verdict m)).results.items = t.results.items ++ [p.verdict m]
  /-- And they have taken every verdict that was given. -/
  recorded : ∀ (i : Nat) (t : Task), e.tasks[i]? = some t →
    t.resultsCount = e.issued.countP fun p => p.task == i && !e.isOpen p

/-- Work that is counted is work. -/
theorem Ledger.perm (h : Ledger e) (i : Nat) : (e.holding i).Perm (e.outstanding i) :=
  List.perm_iff_count.2 fun s => by rw [h.balance, count_outstanding]

/-- **The stages that hold a task are those of its outstanding work**, in every state of every run
before the engine is told to stop: for all strategies, and for all blocks that act only through their
promises. -/
theorem holding_accounts (hb : ∀ s, (blocks s).Proper) (he : Reachable env drift blocks e)
    (hc : e.cancelled = false) : Accounts e := by
  have hl := he.ledger hb hc
  have hk := he.closings hb hc
  have hperm : ∀ (i : Nat) (t : Task), e.tasks[i]? = some t → t.holding.Perm (e.outstanding i) :=
    fun i t ht => holding_of_some ht ▸ hl.perm i
  refine { held := hperm, finished := ?_, none := ?_, registered := ?_, closed := hk.closed,
           told := hk.finishes, open_results := ?_, recorded := hl.recorded }
  · intro i t ht
    rw [hl.finished i t ht]
    exact ⟨fun h => (h ▸ hperm i t ht).symm.eq_nil, fun h => (h ▸ hperm i t ht).eq_nil⟩
  · intro i hi
    exact (holding_of_none hi ▸ hl.perm i).symm.eq_nil
  · rw [hk.registry]
    refine ⟨List.nodup_range.filter _, fun i => ?_⟩
    rw [List.mem_filter, List.mem_range]
    constructor
    · rintro ⟨hi, hlive⟩
      have ht := Array.getElem?_eq_getElem hi
      rw [isLive_of_some ht] at hlive
      exact ⟨_, ht, by simpa using hlive⟩
    · rintro ⟨t, ht, hf⟩
      refine ⟨(Array.getElem?_eq_some_iff.1 ht).1, ?_⟩
      rw [isLive_of_some ht, hf]
      rfl
  · intro p hp ho
    obtain ⟨t, ht, hf⟩ := hl.task_of_open hp ho
    exact ⟨t, ht, fun m => by rw [Task.record_of_open hf]⟩

end

/-- An engine whose stages let everything pass, after it was given one call to do. -/
def pinged : Engine Unit :=
  { ((Engine.start (fun _ => .passing) ()).submit ping).2 with inbox := [] }.handle
    (.submit ping 0)

theorem holding_accounts_pinged :
    (∀ s, ((fun _ => Block.passing : Stage → Block) s).Proper) ∧
      Reachable .crashing (fun _ _ => False) (fun _ => .passing) pinged ∧
      pinged.cancelled = false ∧ pinged.outstanding 0 = [.initial] ∧ Accounts pinged :=
  have hr : Reachable .crashing (fun _ _ => False) (fun _ => .passing) pinged :=
    .step (.step (.start ()) (.submit _ ping)) (.work _ (.submit ping 0) [] rfl rfl rfl)
  ⟨fun _ => Block.proper_passing, hr, rfl, rfl, holding_accounts (fun _ => Block.proper_passing) hr rfl⟩

end Engine
end RpcFlow
