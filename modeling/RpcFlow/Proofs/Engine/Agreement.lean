import RpcFlow.Proofs.Engine.Delivery
import RpcFlow.Proofs.Engine.Sharing

/-!
# One answer for all callers of a task

A strategy may send a task to the stages that deliver as often as it likes, and both of them at the
same time; callers may join the task before and after, and the engine may be stopped in between.  All
of them get the same answer, because a delivery is written down once and read ever after.

* `Engine.Deliveries`, `Engine.Step.deliveries` — what a step does to deliveries.
* `Engine.Posted` — the invariant: a task is delivered to at most once, and the bus has carried an
  event for each delivery.
* `Engine.answer` — what the caller behind a request gets.
* `Engine.Agreement`, `Engine.agreement` — **all callers of a task get what was delivered first**.
-/

set_option autoImplicit false

namespace RpcFlow

/-- The event of a delivery. -/
def Task.event (t : Task) (v : Verdict) : Event := ⟨t.id, t.method, t.descriptor.cacheKey, v⟩

theorem Task.Grows.event {t t' : Task} (h : t.Grows t') : t'.event = t.event := by
  funext v
  rw [Task.event, Task.event, Task.method, Task.method, h.id, h.descriptor]

/-- What was delivered first is the outcome. -/
theorem Task.outcome_of_delivered {t : Task} {v : Verdict} (h : t.delivered.items = [v]) :
    t.outcome = .item v.result := by
  simp [Task.outcome, ReplayLog.read, h]

/-- As long as nothing was delivered, the callers wait until the delivery is closed. -/
theorem Task.outcome_of_nil {t : Task} (h : t.delivered.items = []) :
    t.outcome =
      if t.delivered.completed then
        .item (.error (.interrupted
          ("task " ++ toString t.id ++ " finished without delivering a result")))
      else .waiting := by
  cases hc : t.delivered.completed <;> simp [Task.outcome, ReplayLog.read, h, hc]

/-- A delivery is the first if there was none and the delivery is open. -/
theorem Task.of_deliver_first {t : Task} {v : Verdict} (h : (t.deliver v).2 = true) :
    t.delivered.completed = false ∧ t.delivered.items = [] := by
  rw [Task.deliver_eq] at h
  split at h
  · exact Bool.noConfusion h
  · rename_i ho
    simpa [ReplayLog.isEmpty] using ho

/-! ## What the built-in stages deliver -/

/-- The contract to deliver results and failures only, but no mere choice of way. -/
def Contract.outright (ps : List Promise) : Contract :=
  { Contract.own ps with delivers := fun _ v => v.isRoute = false }

namespace Stages

variable {window : Duration} {retries : Nat}

theorem contract_le_outright {s : Stage} (hs : ¬s.Delivers) (ps : List Promise) :
    (contract s ps).Le (.outright ps) where
  promises := List.Subset.refl ps
  uses _ _ _ := trivial
  delivers _ _ h := absurd h hs
  writes _ _ _ _ := trivial
  ends _ _ := trivial
  sees _ _ _ := trivial
  fetches _ _ _ _ := trivial
  reads _ _ _ := trivial
  stores _ _ := trivial
  decodes _ _ _ _ := trivial
  validates _ _ _ := trivial

/-- The failure that is delivered for a task is one. -/
theorem isRoute_failureOf (t : Task) : (failureOf t).isRoute = false := by
  cases hl : t.lastFailure? with
  | none => rw [failureOf, hl]; rfl
  | some v =>
    have hv : v.isFailure = true := List.find?_some hl
    rw [failureOf, hl, Option.getD_some]
    cases v <;> first | rfl | exact Bool.noConfusion hv

/-- The built-in stages deliver results and failures. -/
theorem outright_onTask (s : Stage) (p : Promise) :
    ((block window retries s).onTask p).Obeys (.outright [p]) := by
  have hp : p ∈ [p] := List.mem_cons_self
  have hend : (Routine.finish .ok).Obeys (.outright [p]) := .inl rfl
  by_cases hs : s.Delivers
  · rcases hs with rfl | rfl
    · refine ⟨hp, fun view _ => ?_⟩
      simp only
      split
      · exact .inr trivial
      · rename_i v hl
        have hv : v.isSuccess = true := List.find?_some hl
        have hroute : v.isRoute = false := by cases v <;> first | rfl | exact Bool.noConfusion hv
        exact ⟨⟨hp, hroute⟩, fun _ => obeys_settle hp trivial hend⟩
    · exact ⟨hp, fun view _ =>
        ⟨⟨hp, isRoute_failureOf view.task⟩, fun _ => obeys_settle hp trivial hend⟩⟩
  · exact (obeys_onTask window retries s p).mono (contract_le_outright hs [p])

theorem outright_onWindow {s : Stage} (hw : (block window retries s).window ≠ none)
    (ps : List Promise) : ((block window retries s).onWindow ps).Obeys (.outright ps) := by
  cases s with
  | getFromNet =>
    have hs : ¬Stage.getFromNet.Delivers := by simp [Stage.Delivers]
    exact (obeys_onWindow window ps).mono (contract_le_outright hs ps)
  | _ => exact absurd rfl hw

end Stages

namespace Engine

variable {σ : Type} {env : Environment σ} {drift : σ → σ → Prop} {blocks : Stage → Block}
  {window : Duration} {retries : Nat} {e e' : Engine σ}

/-! ## What a step does to deliveries -/

/-- No delivery is made and no task is created. -/
structure Silent (e e' : Engine σ) : Prop where
  events : e'.events = e.events
  next : e.nextTask ≤ e'.nextTask
  size : e'.tasks.size = e.tasks.size
  items : ∀ (i : Nat) (t t' : Task), e.tasks[i]? = some t → e'.tasks[i]? = some t' →
    t'.delivered.items = t.delivered.items

namespace Silent

theorem of_eq (events : e'.events = e.events) (next : e.nextTask ≤ e'.nextTask)
    (tasks : e'.tasks = e.tasks) : Silent e e' := by
  refine ⟨events, next, by rw [tasks], fun i t t' ht ht' => ?_⟩
  rw [tasks, ht] at ht'
  cases ht'
  rfl

theorem complete (e : Engine σ) (p : Promise) (m : Move) : Silent e (e.complete p m).2 := by
  have hnext : (e.complete p m).2.nextTask = e.nextTask := by rw [complete_eq]
  refine ⟨by rw [complete_eq], Nat.le_of_eq hnext.symm, size_complete e p m, ?_⟩
  intro i t t' ht ht'
  by_cases ho : e.isOpen p = true
  · rw [tasks_complete ho, ht] at ht'
    split at ht' <;> cases ht' <;> rfl
  · rw [complete_of_used (by simpa using ho), ht] at ht'
    cases ht'
    rfl

theorem place (e : Engine σ) (i : Nat) (source : Option Stage) (next : List Stage) :
    Silent e (e.place i source next) := by
  have hnext : (e.place i source next).nextTask = e.nextTask := by rw [place_eq]
  refine ⟨by rw [place_eq], Nat.le_of_eq hnext.symm, size_place e i source next, ?_⟩
  intro j t t' ht ht'
  cases hi : e.tasks[i]? with
  | none =>
    simp only [Engine.place, Engine.placeUnder, hi] at ht'
    rw [ht] at ht'
    cases ht'
    rfl
  | some u =>
    rw [tasks_place source next hi] at ht'
    split at ht'
    · rename_i hij
      rw [hij, ht] at hi
      cases hi
      cases ht'
      exact (t.moved_frame source next).2.2.2.2
    · rw [ht] at ht'
      cases ht'
      rfl

theorem foldl_close (e : Engine σ) (l : List Nat) :
    Silent e (l.foldl (fun e i => e.updateTask i Task.close) e) := by
  have hnext : (l.foldl (fun e i => e.updateTask i Task.close) e).nextTask = e.nextTask := by
    rw [foldl_close_eq]
  refine ⟨by rw [foldl_close_eq], Nat.le_of_eq hnext.symm, size_foldl_close e l, ?_⟩
  clear hnext
  intro i t t' ht ht'
  induction l generalizing e t with
  | nil =>
    rw [List.foldl_nil, ht] at ht'
    cases ht'
    rfl
  | cons j l ih =>
    have hj := tasks_updateTask e j i Task.close
    rw [ht] at hj
    split at hj
    · exact ih (e.updateTask j Task.close) t.close hj ht'
    · exact ih (e.updateTask j Task.close) t hj ht'

end Silent

/-- What a step does to deliveries: it makes none, or it creates a task, or a handler makes one. -/
inductive Deliveries (env : Environment σ) (e e' : Engine σ) : Prop
  | none : Silent e e' → Deliveries env e e'
  | create (d : Descriptor) : e'.events = e.events → e'.nextTask = e.nextTask + 1 →
    e'.tasks = e.tasks.push { Task.fresh e.nextTask e.now d with holding := [.initial] } →
    Deliveries env e e'
  | deliver (index : Nat) (x : Handler) (p : Promise) (v : Verdict) (k : Bool → Routine) :
    e.handlers[index]? = some x → x.state = .running (.deliver p v k) →
    e' = e.instruct env index (.deliver p v k) → Deliveries env e e'

theorem Step.deliveries (hs : Step env drift e e') : Deliveries env e e' := by
  have hsame : e'.events = e.events → e'.nextTask = e.nextTask → e'.tasks = e.tasks →
      Deliveries env e e' := fun events next tasks =>
    .none (.of_eq events (Nat.le_of_eq next.symm) tasks)
  cases hs with
  | pass now nextTask world _ hn => exact .none (.of_eq rfl hn rfl)
  | submit d => exact hsame (by rw [submit_eq]) (by rw [submit_eq]) (by rw [submit_eq])
  | shutdown => exact hsame (by rw [shutdown_eq]) (by rw [shutdown_eq]) (by rw [shutdown_eq])
  | work c rest hc hrun hi =>
    cases c with
    | submit d reply =>
      rcases accept_cases { e with inbox := rest } d with ⟨i, t, -, -, ha⟩ | ⟨-, ha⟩
      · exact hsame (by simp only [handle, ha]; rfl) (by simp only [handle, ha]; rfl)
          (by simp only [handle, ha]; rfl)
      · have htasks := tasks_create { e with inbox := rest } d
        refine .create d ?_ ?_ ?_
        all_goals simp only [handle, ha]
        · rw [create_eq]
        · rw [create_eq]
        · exact htasks
    | transition i source verdict =>
      have hplace := Silent.place { e with inbox := rest } i (some source) verdict.next
      exact .none ⟨hplace.events, hplace.next, hplace.size, hplace.items⟩
  | stop =>
    have hclosed := Silent.foldl_close e e.registry
    have htasks := tasks_stopWorker e
    rw [stopWorker_eq]
    refine .none ⟨rfl, Nat.le_refl _, ?_, fun i t t' ht ht' => ?_⟩
    · exact htasks ▸ hclosed.size
    · exact hclosed.items i t t' ht (htasks ▸ ht')
  | take stage index rest => rw [handOne_frame]; exact .none (.of_eq rfl (Nat.le_refl _) rfl)
  | closeWindow stage w => rw [handWindow_eq]; exact .none (.of_eq rfl (Nat.le_refl _) rfl)
  | run index x r hx hr =>
    have hend : ∀ ending, Deliveries env e (e.endHandler index ending) := by
      intro ending
      rw [endHandler_eq]
      exact .none (.of_eq rfl (Nat.le_refl _) rfl)
    cases r with
    | finish ending => exact hend ending
    | look p k =>
      simp only [instruct]
      split
      · exact .none (.of_eq rfl (Nat.le_refl _) rfl)
      · exact hend .ok
    | complete p m k =>
      have hcomplete := Silent.complete e p m
      exact .none ⟨hcomplete.events, hcomplete.next, hcomplete.size, hcomplete.items⟩
    | deliver p v k => exact .deliver index x p v k hx hr rfl
    | _ => exact .none (.of_eq rfl (Nat.le_refl _) rfl)
  | rescue index x ending error p => exact .none (.complete e p _)
  | read index => exact hsame (by rw [readBus_eq]) (by rw [readBus_eq]) (by rw [readBus_eq])
  | _ => exact hsame rfl rfl rfl

/-! ## The invariant -/

/-- The events on the bus that carry the id of a task. -/
def eventsOf (e : Engine σ) (id : Nat) : List Event :=
  e.events.toList.filter fun x => x.taskId == id

/-- Each task has an id of its own, at most one delivery, and an event on the bus for each. -/
structure Posted (e : Engine σ) : Prop where
  fresh : ∀ (i : Nat) (t : Task), e.tasks[i]? = some t → t.id < e.nextTask
  ids : ∀ (i j : Nat) (t u : Task), e.tasks[i]? = some t → e.tasks[j]? = some u → t.id = u.id → i = j
  known : ∀ x ∈ e.events.toList, x.taskId < e.nextTask
  events : ∀ (i : Nat) (t : Task), e.tasks[i]? = some t →
    e.eventsOf t.id = t.delivered.items.map t.event
  once : ∀ (i : Nat) (t : Task), e.tasks[i]? = some t →
    t.delivered.items = [] ∨ ∃ v, t.delivered.items = [v] ∧ v.isRoute = false

namespace Posted

theorem start (blocks : Stage → Block) (world : σ) : Posted (Engine.start blocks world) where
  fresh := fun i t ht => by simp [Engine.start] at ht
  ids := fun i j t u ht => by simp [Engine.start] at ht
  known := fun x hx => by simp [Engine.start] at hx
  events := fun i t ht => by simp [Engine.start] at ht
  once := fun i t ht => by simp [Engine.start] at ht

theorem silent (h : Posted e) (hg : Grows e e') (hs : Silent e e') : Posted e' := by
  have hevents : ∀ id, e'.eventsOf id = e.eventsOf id := fun id => by
    rw [eventsOf, eventsOf, hs.events]
  refine { fresh := ?_, ids := ?_, known := ?_, events := ?_, once := ?_ }
  · intro i t' ht'
    obtain ⟨t, ht, hgt⟩ := hg.back hs.size ht'
    exact hgt.id ▸ Nat.lt_of_lt_of_le (h.fresh i t ht) hs.next
  · intro i j t' u' ht' hu' hid
    obtain ⟨t, ht, hgt⟩ := hg.back hs.size ht'
    obtain ⟨u, hu, hgu⟩ := hg.back hs.size hu'
    exact h.ids i j t u ht hu (by rw [← hgt.id, hid, hgu.id])
  · intro x hx
    rw [hs.events] at hx
    exact Nat.lt_of_lt_of_le (h.known x hx) hs.next
  · intro i t' ht'
    obtain ⟨t, ht, hgt⟩ := hg.back hs.size ht'
    rw [hevents, hgt.id, hs.items i t t' ht ht', hgt.event]
    exact h.events i t ht
  · intro i t' ht'
    obtain ⟨t, ht, -⟩ := hg.back hs.size ht'
    rw [hs.items i t t' ht ht']
    exact h.once i t ht

/-- A new task has a new id, of which the bus has not heard. -/
theorem create (h : Posted e) {d : Descriptor} (events : e'.events = e.events)
    (next : e'.nextTask = e.nextTask + 1)
    (tasks : e'.tasks = e.tasks.push { Task.fresh e.nextTask e.now d with holding := [.initial] }) :
    Posted e' := by
  have hevents : ∀ id, e'.eventsOf id = e.eventsOf id := fun id => by
    rw [eventsOf, eventsOf, events]
  have hcases : ∀ {i : Nat} {t : Task}, e'.tasks[i]? = some t →
      (i = e.tasks.size ∧ t.id = e.nextTask ∧ t.delivered.items = []) ∨ e.tasks[i]? = some t := by
    intro i t ht
    rw [tasks, Array.getElem?_push] at ht
    split at ht
    · rename_i hi
      cases ht
      exact .inl ⟨hi, rfl, rfl⟩
    · exact .inr ht
  refine { fresh := ?_, ids := ?_, known := ?_, events := ?_, once := ?_ }
  · intro i t ht
    rcases hcases ht with ⟨-, hid, -⟩ | ht
    · omega
    · have hlt := h.fresh i t ht
      omega
  · intro i j t u ht hu hid
    rcases hcases ht with ⟨hi, hidt, -⟩ | ht <;> rcases hcases hu with ⟨hj, hidu, -⟩ | hu
    · exact hi.trans hj.symm
    · have hlt := h.fresh j u hu
      omega
    · have hlt := h.fresh i t ht
      omega
    · exact h.ids i j t u ht hu hid
  · intro x hx
    rw [events] at hx
    have hlt := h.known x hx
    omega
  · intro i t ht
    rw [hevents]
    rcases hcases ht with ⟨-, hid, hitems⟩ | ht
    · rw [hitems, hid, List.map_nil, eventsOf, List.filter_eq_nil_iff]
      intro x hx hxid
      exact Nat.lt_irrefl _ (beq_iff_eq.1 hxid ▸ h.known x hx)
    · exact h.events i t ht
  · intro i t ht
    rcases hcases ht with ⟨-, -, hitems⟩ | ht
    · exact .inl hitems
    · exact h.once i t ht

/-- The first delivery to a task is written down and goes to the bus; later ones are dropped. -/
theorem deliver (h : Posted e) (i : Nat) {v : Verdict} (hv : v.isRoute = false) :
    Posted (e.deliver i v).2 := by
  cases ht : e.tasks[i]? with
  | none => rw [deliver_of_none ht]; exact h
  | some t =>
    cases hfirst : (t.deliver v).2 with
    | false =>
      rw [deliver_of_later ht hfirst]
      exact h.silent (.of_eq rfl) (.of_eq rfl (Nat.le_refl _) rfl)
    | true =>
      obtain ⟨hopen, hnone⟩ := Task.of_deliver_first hfirst
      have htaken : (t.deliver v).1.delivered.items = [v] := by
        rw [Task.items_deliver hopen, if_pos hnone]
      have hnext : (e.deliver i v).2.nextTask = e.nextTask := by rw [deliver_eq]
      have hevents : (e.deliver i v).2.events.toList = e.events.toList ++ [t.event v] := by
        rw [deliver_of_first ht hfirst]
        exact Array.toList_push
      have hof : ∀ id, (e.deliver i v).2.eventsOf id =
          e.eventsOf id ++ if t.id = id then [t.event v] else [] := by
        intro id
        rw [eventsOf, hevents, List.filter_append]
        congr 1
        by_cases hid : t.id = id <;> simp [Task.event, hid]
      have hback : ∀ {j : Nat} {u' : Task}, (e.deliver i v).2.tasks[j]? = some u' →
          (j = i ∧ u' = (t.deliver v).1) ∨ (j ≠ i ∧ e.tasks[j]? = some u') := by
        intro j u' hu'
        rw [tasks_deliver] at hu'
        split at hu'
        · rename_i hij
          rw [← hij, ht] at hu'
          exact .inl ⟨hij.symm, (Option.some.inj hu').symm⟩
        · rename_i hij
          exact .inr ⟨Ne.symm hij, hu'⟩
      have hgrows := Grows.deliver e i v
      have hsize := size_deliver e i v
      refine { fresh := ?_, ids := ?_, known := ?_, events := ?_, once := ?_ }
      · intro j u' hu'
        obtain ⟨u, hu, hgu⟩ := hgrows.back hsize hu'
        rw [hnext, hgu.id]
        exact h.fresh j u hu
      · intro j k u' w' hu' hw' hid
        obtain ⟨u, hu, hgu⟩ := hgrows.back hsize hu'
        obtain ⟨w, hw, hgw⟩ := hgrows.back hsize hw'
        exact h.ids j k u w hu hw (by rw [← hgu.id, hid, hgw.id])
      · intro x hx
        rw [hnext]
        rw [hevents, List.mem_append, List.mem_singleton] at hx
        rcases hx with hx | rfl
        · exact h.known x hx
        · exact h.fresh i t ht
      · intro j u' hu'
        rw [hof]
        rcases hback hu' with ⟨rfl, rfl⟩ | ⟨hj, hu⟩
        · have hg := Task.Grows.deliver t v
          rw [hg.id, if_pos rfl, h.events j t ht, hnone, htaken, hg.event]
          rfl
        · have hid : t.id ≠ u'.id := fun hid => hj (h.ids i j t u' ht hu hid).symm
          rw [if_neg hid, List.append_nil]
          exact h.events j u' hu
      · intro j u' hu'
        rcases hback hu' with ⟨rfl, rfl⟩ | ⟨-, hu⟩
        · exact .inr ⟨v, htaken, hv⟩
        · exact h.once j u' hu

/-- Every step keeps the invariant, if handlers deliver no mere choice of way. -/
theorem step (h : Posted e) (hs : Step env drift e e')
    (hk : ∀ (index : Nat) (x : Handler), e.handlers[index]? = some x →
      x.Keeps (.outright x.promises)) : Posted e' := by
  cases hs.deliveries with
  | none hsilent => exact h.silent hs.grows hsilent
  | create d events next tasks => exact h.create events next tasks
  | deliver index x p v k hx hr heq =>
    have hkeeps := hk index x hx
    rw [Handler.Keeps, hr] at hkeeps
    have hdeliver := h.deliver p.task hkeeps.1.2
    rw [heq]
    exact ⟨hdeliver.fresh, hdeliver.ids, hdeliver.known, hdeliver.events, hdeliver.once⟩

end Posted

theorem Reachable.outright (he : Reachable env drift (Stages.block window retries) e) :
    ∀ (index : Nat) (x : Handler), e.handlers[index]? = some x →
      x.Keeps (.outright x.promises) := by
  induction he with
  | start world => exact fun index x hx => by simp [Engine.start] at hx
  | step he hs ih =>
    intro index x hx
    have hb := he.blocks_eq
    refine hs.keeps (C := fun _ ps => .outright ps) ?_ ?_ ?_ ih hx
    · exact fun s p _ => hb ▸ Stages.outright_onTask s p
    · intro s ps hw
      rw [hb] at hw ⊢
      exact Stages.outright_onWindow hw ps
    · exact fun _ _ _ => ⟨fun _ _ _ => trivial, fun _ _ => trivial, fun _ => trivial,
        fun _ _ _ => trivial, fun _ _ => trivial, fun _ => trivial⟩

theorem Reachable.posted (he : Reachable env drift (Stages.block window retries) e) : Posted e := by
  induction he with
  | start world => exact .start _ world
  | step he hs ih => exact ih.step hs he.outright

/-! ## The result -/

/-- What the caller behind a request gets. -/
def answer (e : Engine σ) (r : Nat) : Reading (Except CallError Json) :=
  match e.reply r with
  | .task i => e.outcome i
  | .waiting => .waiting
  | .refused => .item (.error stoppedError)

theorem answer_of_task {r i : Nat} {t : Task} (hr : e.replies[r]? = some (.task i))
    (ht : e.tasks[i]? = some t) : e.answer r = t.outcome := by
  simp [answer, reply, outcome, hr, ht]

/-- What the callers of each task get, in one state of an engine and from there on. -/
structure Agreement (env : Environment σ) (drift : σ → σ → Prop) (e : Engine σ) : Prop where
  /-- At most one verdict is delivered, and it is no mere choice of way. -/
  once : ∀ (i : Nat) (t : Task), e.tasks[i]? = some t →
    t.delivered.items = [] ∨ ∃ v, t.delivered.items = [v] ∧ v.isRoute = false
  /-- The bus has carried an event with the id of the task for each delivery, with its verdict. -/
  events : ∀ (i : Nat) (t : Task), e.tasks[i]? = some t →
    e.eventsOf t.id = t.delivered.items.map t.event
  /-- What was delivered stays as it is, and so does a delivery that was closed. -/
  kept : ∀ (i : Nat) (t : Task), e.tasks[i]? = some t →
    t.delivered.items ≠ [] ∨ t.delivered.completed = true →
    ∀ e', Steps env drift e e' →
      ∃ t', e'.tasks[i]? = some t' ∧ t'.delivered.items = t.delivered.items
  /-- Who has a task keeps it. -/
  bound : ∀ r i : Nat, e.replies[r]? = some (.task i) →
    ∀ e', Steps env drift e e' → e'.replies[r]? = some (.task i)
  /-- Whoever has the task once a verdict was delivered, since when ever, gets that verdict. -/
  delivered : ∀ (i : Nat) (t : Task) (v : Verdict), e.tasks[i]? = some t →
    t.delivered.items = [v] →
    ∀ e', Steps env drift e e' → ∀ r : Nat, e'.replies[r]? = some (.task i) →
      e'.answer r = .item v.result
  /-- If the delivery was closed before there was one, then whoever has the task is told so. -/
  interrupted : ∀ (i : Nat) (t : Task), e.tasks[i]? = some t → t.delivered.items = [] →
    t.delivered.completed = true →
    ∀ e', Steps env drift e e' → ∀ r : Nat, e'.replies[r]? = some (.task i) →
      e'.answer r = .item (.error (.interrupted
        ("task " ++ toString t.id ++ " finished without delivering a result")))
  /-- A caller who has got something got what every other caller of the task gets. -/
  agreed : ∀ r i : Nat, e.replies[r]? = some (.task i) → ∀ x, e.answer r = .item x →
    ∀ e', Steps env drift e e' → ∀ s : Nat, e'.replies[s]? = some (.task i) → e'.answer s = .item x

/-- A verdict that was delivered, and a delivery that was closed, are the same ever after. -/
theorem Reachable.delivered_kept (he : Reachable env drift (Stages.block window retries) e) {i : Nat}
    {t : Task} (ht : e.tasks[i]? = some t)
    (hd : t.delivered.items ≠ [] ∨ t.delivered.completed = true) (hs : Steps env drift e e') :
    ∃ t', e'.tasks[i]? = some t' ∧ t'.id = t.id ∧ t'.delivered.items = t.delivered.items ∧
      (t.delivered.completed = true → t'.delivered.completed = true) := by
  obtain ⟨t', ht', hg⟩ := hs.grows i t ht
  refine ⟨t', ht', hg.id, ?_, fun hc => (congrArg ReplayLog.completed (hg.closed hc)).trans hc⟩
  rcases hd with hne | hc
  · rcases he.posted.once i t ht with hnil | ⟨v, hv, -⟩
    · exact absurd hnil hne
    · have hpre := hg.delivered
      rcases (he.steps hs).posted.once i t' ht' with hnil | ⟨v', hv', -⟩
      · rw [hv, hnil] at hpre
        exact absurd (List.prefix_nil.1 hpre) (List.cons_ne_nil v [])
      · rw [hv, hv'] at hpre ⊢
        exact (hpre.eq_of_length rfl).symm
  · rw [hg.closed hc]

/-- **All callers of a task get the same answer**, in every run of the built-in stages, under any
strategies, whenever a caller joined the task and whether the engine was stopped: what was delivered
first, and nothing else is delivered. -/
theorem agreement (he : Reachable env drift (Stages.block window retries) e) :
    Agreement env drift e := by
  have hposted := he.posted
  have hdelivered : ∀ (i : Nat) (t : Task) (v : Verdict), e.tasks[i]? = some t →
      t.delivered.items = [v] → ∀ e', Steps env drift e e' → ∀ r : Nat,
      e'.replies[r]? = some (.task i) → e'.answer r = .item v.result := by
    intro i t v ht hv e' hs r hr
    have hne : t.delivered.items ≠ [] := hv ▸ List.cons_ne_nil v []
    obtain ⟨t', ht', -, hitems, -⟩ := he.delivered_kept ht (.inl hne) hs
    rw [answer_of_task hr ht']
    exact Task.outcome_of_delivered (hitems.trans hv)
  have hinterrupted : ∀ (i : Nat) (t : Task), e.tasks[i]? = some t → t.delivered.items = [] →
      t.delivered.completed = true → ∀ e', Steps env drift e e' → ∀ r : Nat,
      e'.replies[r]? = some (.task i) → e'.answer r = .item (.error (.interrupted
        ("task " ++ toString t.id ++ " finished without delivering a result"))) := by
    intro i t ht hnil hc e' hs r hr
    obtain ⟨t', ht', hid, hitems, hclosed⟩ := he.delivered_kept ht (.inr hc) hs
    rw [answer_of_task hr ht', Task.outcome_of_nil (hitems.trans hnil), if_pos (hclosed hc), hid]
  refine { once := hposted.once, events := hposted.events, kept := ?_, bound := ?_,
           delivered := hdelivered, interrupted := hinterrupted, agreed := ?_ }
  · intro i t ht hd e' hs
    obtain ⟨t', ht', -, hitems, -⟩ := he.delivered_kept ht hd hs
    exact ⟨t', ht', hitems⟩
  · exact fun r i hr e' hs => he.bound hs hr
  · intro r i hr x hx e' hs s hs'
    have hi : i < e.tasks.size := he.desk.answers r i hr
    have ht : e.tasks[i]? = some e.tasks[i] := Array.getElem?_eq_getElem hi
    rcases hposted.once i _ ht with hnil | ⟨v, hv, -⟩
    · -- who has got something without a delivery was told that there will be none
      rw [answer_of_task hr ht, Task.outcome_of_nil hnil] at hx
      split at hx
      · rename_i hc
        rw [← hx]
        exact hinterrupted i _ ht hnil hc e' hs s hs'
      · exact absurd hx (by simp)
    · rw [hdelivered i _ v ht hv e .refl r hr] at hx
      rw [← hx]
      exact hdelivered i _ v ht hv e' hs s hs'

/-- A strategy that sends every task to both stages that deliver, and to one of them twice. -/
def insistent : Strategy :=
  .merge [(Table.empty "insistent").route .initial
    ⟨[.deliverError, .deliverResult, .deliverError], []⟩] 0

/-- An engine that has carried out a call of that strategy; a second caller has joined it between two
deliveries. -/
def joined : Engine Unit :=
  [.worker, .handler 2, .loop .deliverResult, .handler 3, .supervisor 3, .worker].foldl
    (turn .crashing)
    (([.worker, .loop .initial, .handler 0, .worker, .loop .deliverError, .handler 1].foldl
      (turn .crashing) ((Engine.start (Stages.block (.ofMillis 0) 1) ()).submit
        { ping with strategy := insistent }).2).submit { ping with strategy := insistent }).2

theorem agreement_joined :
    Reachable .crashing (fun _ _ => False) (Stages.block (.ofMillis 0) 1) joined ∧
      Agreement .crashing (fun _ _ => False) joined ∧
      (joined.replies = #[.task 0, .task 0] ∧ joined.events.size = 1 ∧
        ∀ r < 2, joined.answer r =
          .item (.error (.interrupted "flow ended without a result"))) :=
  have hr : Reachable .crashing (fun _ _ => False) (Stages.block (.ofMillis 0) 1) joined :=
    Reachable.steps (.step (Reachable.steps (.step (.start ()) (.submit _ _)) (turns_steps _ _))
      (.submit _ _)) (turns_steps _ _)
  ⟨hr, agreement hr, rfl, rfl, fun r hlt => by
    match r, hlt with
    | 0, _ => rfl
    | 1, _ => rfl⟩

end Engine
end RpcFlow
