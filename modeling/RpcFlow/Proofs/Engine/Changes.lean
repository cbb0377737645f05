import RpcFlow.Proofs.Engine.Step

/-!
# What the changes of an engine change

Every change of an engine touches a few of its fields.  Each is described once: an equation
`change e = { e with … }` lists the fields that may differ, so that every other field is the same by
definition, and short lemmas say what the listed fields become.

* `complete_of_isOpen`, `complete_of_used`: the use of a promise.
* `deliver_eq`: a delivery.
* `place_eq` with `tasks_place`, `loop_place`, `registry_place`: a task goes from stage to stage.
* `create_eq`, `accept_eq`: a request is taken in.
* `promises_eq` with `forall_promises`, `map_task_promises`, `map_number_promises`: promises are made
  for tasks.
-/

set_option autoImplicit false

namespace RpcFlow

/-! ## A task alone -/

namespace Task

/-- The stages that hold a task once it has left one of its stays in `source`. -/
def without (t : Task) : Option Stage → List Stage
  | some stage => t.holding.erase stage
  | none => t.holding

theorem moveTo_eq (t : Task) (source : Option Stage) (next : List Stage) :
    t.moveTo source next =
      ({ t with
          holding := t.without source ++ next
          results := if t.without source ++ next = [] then t.results.complete else t.results },
        decide (t.without source ++ next = [])) := by
  have hw : t.moveTo source next =
      if (t.without source ++ next).isEmpty then
        ({ t with holding := t.without source ++ next, results := t.results.complete }, true)
      else ({ t with holding := t.without source ++ next }, false) := by
    cases source <;> rfl
  rw [hw]
  by_cases h : t.without source ++ next = []
  · rw [if_pos (List.isEmpty_iff.2 h), if_pos h, decide_eq_true h]
  · rw [if_neg fun he => h (List.isEmpty_iff.1 he), if_neg h, decide_eq_false h]

/-- A task after a move; once no stage holds it any more, nothing can be added to it. -/
def moved (t : Task) (source : Option Stage) (next : List Stage) : Task :=
  if t.without source ++ next = [] then
    { t with holding := [], results := t.results.complete, delivered := t.delivered.complete }
  else { t with holding := t.without source ++ next }

theorem holding_moved (t : Task) (source : Option Stage) (next : List Stage) :
    (t.moved source next).holding = t.without source ++ next := by
  unfold moved
  split
  · rename_i h
    rw [h]
  · rfl

/-- A task that has not finished does so when no stage holds it any more. -/
theorem isFinished_moved {t : Task} (h : t.isFinished = false) (source : Option Stage)
    (next : List Stage) :
    (t.moved source next).isFinished = true ↔ t.without source ++ next = [] := by
  rw [isFinished] at h ⊢
  unfold moved
  split
  · rename_i hdone
    exact ⟨fun _ => hdone, fun _ => rfl⟩
  · rename_i hheld
    rw [h]
    exact ⟨fun hf => Bool.noConfusion hf, fun hdone => absurd hdone hheld⟩

/-- What a move leaves alone. -/
theorem moved_frame (t : Task) (source : Option Stage) (next : List Stage) :
    (t.moved source next).id = t.id ∧ (t.moved source next).started = t.started ∧
      (t.moved source next).descriptor = t.descriptor ∧
      (t.moved source next).results.items = t.results.items ∧
      (t.moved source next).delivered.items = t.delivered.items := by
  unfold moved
  split <;> exact ⟨rfl, rfl, rfl, rfl, rfl⟩

/-- A task takes the first verdict that is delivered to it, unless its delivery is closed. -/
theorem deliver_eq (t : Task) (v : Verdict) :
    t.deliver v =
      if t.delivered.completed || !t.delivered.isEmpty then (t, false)
      else ({ t with delivered := { t.delivered with items := t.delivered.items ++ [v] } }, true) := by
  simp only [deliver, ReplayLog.pushOnce]
  split <;> rfl

/-- A delivery changes nothing of a task but what was delivered. -/
theorem deliver_frame (t : Task) (v : Verdict) :
    (t.deliver v).1 = { t with delivered := (t.deliver v).1.delivered } := by
  rw [deliver_eq]
  split <;> rfl

/-- An open log takes the verdict. -/
theorem record_of_open {t : Task} (h : t.results.completed = false) (v : Verdict) :
    t.record v = { t with results := { t.results with items := t.results.items ++ [v] } } := by
  simp [record, ReplayLog.push, h]

end Task

namespace Engine

variable {σ : Type}

/-! ## Tasks and loops -/

theorem tasks_updateTask (e : Engine σ) (i j : Nat) (f : Task → Task) :
    (e.updateTask i f).tasks[j]? = if i = j then e.tasks[j]?.map f else e.tasks[j]? := by
  rw [updateTask, Array.getElem?_modify]

theorem Stage.slot_inj {s t : Stage} : s.slot = t.slot ↔ s = t := by
  cases s <;> cases t <;> decide

theorem loop_setLoop (e : Engine σ) (s t : Stage) (l : Loop) :
    (e.setLoop s l).loop t = if s = t then l else e.loop t := by
  unfold setLoop loop
  by_cases h : s = t
  · subst h
    simp
  · have hne : (s.slot : Nat) ≠ t.slot := fun he => h (Stage.slot_inj.1 (Fin.ext he))
    simp [hne, h]

/-! ## Handlers -/

theorem handlers_resume (e : Engine σ) (i j : Nat) (r : Routine) :
    (e.resume i r).handlers[j]? =
      if i = j then e.handlers[j]?.map fun h => { h with state := .running r }
      else e.handlers[j]? := by
  rw [resume, updateHandler, Array.getElem?_modify]

/-- A handler that is resumed goes on. -/
theorem state_resume {e e' : Engine σ} {i : Nat} {r : Routine} {h h' : Handler}
    (hi : e.handlers[i]? = some h) (hh : e'.handlers = e.handlers)
    (hi' : (e'.resume i r).handlers[i]? = some h') : h'.state = .running r := by
  rw [handlers_resume, if_pos rfl, hh, hi] at hi'
  cases hi'
  rfl

theorem modify_modify {α : Type} (a : Array α) (i : Nat) (f g : α → α) :
    (a.modify i f).modify i g = a.modify i fun x => g (f x) := by
  ext j h₁ h₂
  · simp
  · simp only [Array.getElem_modify]
    split <;> rfl

/-- A change that does not change the entry it is for changes nothing. -/
theorem modify_eq_self {α : Type} {a : Array α} {i : Nat} {f : α → α}
    (h : ∀ x, a[i]? = some x → f x = x) : a.modify i f = a := by
  ext j h₁ h₂
  · rw [Array.size_modify]
  · rw [Array.getElem_modify]
    split
    · rename_i hij
      subst hij
      exact h _ (Array.getElem?_eq_getElem h₂)
    · rfl

/-- A change of an entry is told by what it makes of that entry. -/
theorem modify_congr {α : Type} {a : Array α} {i : Nat} {x : α} (hx : a[i]? = some x) {f g : α → α}
    (h : f x = g x) : a.modify i f = a.modify i g := by
  refine Array.ext_getElem? fun j => ?_
  rw [Array.getElem?_modify, Array.getElem?_modify]
  split
  · rename_i hj
    rw [← hj, hx, Option.map_some, Option.map_some, h]
  · rfl

theorem resume_resume (e : Engine σ) (i : Nat) (r s : Routine) :
    (e.resume i r).resume i s = e.resume i s := by
  simp only [resume, updateHandler, modify_modify]

theorem endHandler_resume (e : Engine σ) (i : Nat) (r : Routine) (ending : Ending) :
    (e.resume i r).endHandler i ending = e.endHandler i ending := by
  have hw : ((e.resume i r).handlers[i]?.map Handler.watched) = e.handlers[i]?.map Handler.watched := by
    rw [handlers_resume]
    cases e.handlers[i]? <;> simp
  simp only [endHandler, hw]
  simp only [resume, updateHandler, modify_modify]

theorem endHandler_eq (e : Engine σ) (i : Nat) (ending : Ending) :
    e.endHandler i ending =
      { e with
        handlers := e.handlers.modify i fun h => { h with state := .ended ending }
        woken := (e.endHandler i ending).woken } := by
  unfold endHandler
  simp only
  split <;> rfl

/-- A handler that ends has ended. -/
theorem state_endHandler {e : Engine σ} {i : Nat} {ending : Ending} {h h' : Handler}
    (hi : e.handlers[i]? = some h) (hi' : (e.endHandler i ending).handlers[i]? = some h') :
    h'.state = .ended ending := by
  rw [endHandler_eq] at hi'
  simp only [Array.getElem?_modify, if_true, hi] at hi'
  cases hi'
  rfl

/-- A handler that goes on with what it was about to do anyway. -/
theorem resume_self {e : Engine σ} {i : Nat} {h : Handler} {r : Routine}
    (hi : e.handlers[i]? = some h) (hr : h.state = .running r) : e.resume i r = e := by
  rw [resume, updateHandler, modify_eq_self]
  intro x hx
  rw [hi] at hx
  cases hx
  rw [← hr]

/-! ## Subscribers -/

theorem foldl_wake {α : Type} (actor : α → Actor) (l : List α) (e : Engine σ) :
    l.foldl (fun e x => e.wake (actor x)) e = { e with woken := e.woken ++ l.map actor } := by
  induction l generalizing e with
  | nil => simp
  | cons x l ih =>
    rw [List.foldl_cons, ih]
    simp only [wake, List.map_cons, List.append_assoc, List.singleton_append]

theorem wakeSubscribers_eq (e : Engine σ) :
    e.wakeSubscribers =
      { e with woken := e.woken ++ (List.range e.subscribers.size).map .subscriber } :=
  foldl_wake _ _ _

/-! ## Using a promise -/

theorem complete_of_used {e : Engine σ} {p : Promise} (h : e.isOpen p = false) (m : Move) :
    e.complete p m = (false, e) := by
  simp [complete, h]

/-- The use of an open promise: it is used up, its verdict is recorded, and the worker is told unless
it has stopped. -/
theorem complete_of_isOpen {e : Engine σ} {p : Promise} (h : e.isOpen p = true) (m : Move) :
    e.complete p m =
      (true,
        { e with
          used := e.used.setIfInBounds p.number true
          tasks := e.tasks.modify p.task fun t => t.record (p.verdict m)
          inbox := if e.stopped then e.inbox else e.inbox ++ [.transition p.task p.stage (p.verdict m)]
          journal := (e.complete p m).2.journal
          woken := (e.complete p m).2.woken }) := by
  unfold complete
  rw [if_pos h]
  simp only [updateTask, send, wake, report]
  split <;> simp_all

theorem complete_eq (e : Engine σ) (p : Promise) (m : Move) :
    (e.complete p m).2 =
      { e with
        used := (e.complete p m).2.used
        tasks := (e.complete p m).2.tasks
        inbox := (e.complete p m).2.inbox
        journal := (e.complete p m).2.journal
        woken := (e.complete p m).2.woken } := by
  by_cases h : e.isOpen p
  · rw [complete_of_isOpen h]
  · rw [complete_of_used (by simpa using h)]

/-- What is in the inbox stays in front of what the use of a promise adds. -/
theorem inbox_complete (e : Engine σ) (p : Promise) (m : Move) :
    e.inbox <+: (e.complete p m).2.inbox := by
  by_cases h : e.isOpen p = true
  · rw [complete_of_isOpen h]
    simp only
    split
    · exact List.prefix_rfl
    · exact List.prefix_append _ _
  · exact complete_of_used (by simpa using h) m ▸ List.prefix_rfl

/-- The use of a promise adds no command but a transition. -/
theorem filterMap_inbox_complete {α : Type} {f : Command → Option α}
    (hf : ∀ i source verdict, f (.transition i source verdict) = none) (e : Engine σ) (p : Promise)
    (m : Move) : (e.complete p m).2.inbox.filterMap f = e.inbox.filterMap f := by
  by_cases h : e.isOpen p = true
  · rw [complete_of_isOpen h]
    simp only
    split
    · rfl
    · rw [List.filterMap_append, List.filterMap_cons_none (hf _ _ _), List.filterMap_nil,
        List.append_nil]
  · rw [complete_of_used (by simpa using h)]

theorem size_complete (e : Engine σ) (p : Promise) (m : Move) :
    (e.complete p m).2.tasks.size = e.tasks.size := by
  by_cases h : e.isOpen p = true
  · rw [complete_of_isOpen h, Array.size_modify]
  · rw [complete_of_used (by simpa using h)]

theorem complete_resume (e : Engine σ) (i : Nat) (r : Routine) (p : Promise) (m : Move) :
    (e.resume i r).complete p m = ((e.complete p m).1, (e.complete p m).2.resume i r) := by
  have ho : (e.resume i r).isOpen p = e.isOpen p := rfl
  have hs : (e.resume i r).stopped = e.stopped := rfl
  by_cases h : e.isOpen p = true
  · cases stopped : e.stopped
    all_goals simp only [complete, ho, h, if_true, updateTask, hs, stopped, Bool.false_eq_true, if_false]
    all_goals rfl
  · simp only [complete, ho, h, Bool.false_eq_true, if_false]

/-! ## Delivering -/

/-- The first delivery to a task becomes an event. -/
theorem deliver_of_first {e : Engine σ} {i : Nat} {t : Task} {v : Verdict}
    (ht : e.tasks[i]? = some t) (h : (t.deliver v).2 = true) :
    e.deliver i v =
      (true,
        { e with
          tasks := e.tasks.modify i fun _ => (t.deliver v).1
          events := e.events.push ⟨t.id, t.method, t.descriptor.cacheKey, v⟩
          woken := e.woken ++ (List.range e.subscribers.size).map .subscriber }) := by
  simp only [deliver, ht, h, if_true, wakeSubscribers_eq]
  rfl

/-- Later deliveries are only reported. -/
theorem deliver_of_later {e : Engine σ} {i : Nat} {t : Task} {v : Verdict}
    (ht : e.tasks[i]? = some t) (h : (t.deliver v).2 = false) :
    e.deliver i v = (false, e.report (.deliveryDropped t.id)) := by
  simp only [deliver, ht, h, Bool.false_eq_true, if_false]

theorem deliver_of_none {e : Engine σ} {i : Nat} (ht : e.tasks[i]? = none) (v : Verdict) :
    e.deliver i v = (false, e) := by
  simp only [deliver, ht]

theorem deliver_eq (e : Engine σ) (i : Nat) (v : Verdict) :
    (e.deliver i v).2 =
      { e with
        tasks := (e.deliver i v).2.tasks
        events := (e.deliver i v).2.events
        journal := (e.deliver i v).2.journal
        woken := (e.deliver i v).2.woken } := by
  cases ht : e.tasks[i]? with
  | none => rw [deliver_of_none ht]
  | some t =>
    cases h : (t.deliver v).2
    · rw [deliver_of_later ht h]; rfl
    · rw [deliver_of_first ht h]

theorem deliver_resume (e : Engine σ) (i j : Nat) (r : Routine) (v : Verdict) :
    (e.resume i r).deliver j v = ((e.deliver j v).1, (e.deliver j v).2.resume i r) := by
  cases ht : e.tasks[j]? with
  | none =>
    have ht' : (e.resume i r).tasks[j]? = none := ht
    rw [deliver_of_none ht, deliver_of_none ht']
  | some t =>
    have ht' : (e.resume i r).tasks[j]? = some t := ht
    cases h : (t.deliver v).2
    · rw [deliver_of_later ht h, deliver_of_later ht' h]; rfl
    · rw [deliver_of_first ht h, deliver_of_first ht' h]; rfl

/-- The tasks after a delivery: the task delivered to takes the verdict if it has none. -/
theorem size_deliver (e : Engine σ) (i : Nat) (v : Verdict) :
    (e.deliver i v).2.tasks.size = e.tasks.size := by
  cases ht : e.tasks[i]? with
  | none => rw [deliver_of_none ht]
  | some t =>
    cases hd : (t.deliver v).2 with
    | false => rw [deliver_of_later ht hd]; rfl
    | true => rw [deliver_of_first ht hd, Array.size_modify]

theorem tasks_deliver (e : Engine σ) (i j : Nat) (v : Verdict) :
    (e.deliver i v).2.tasks[j]? =
      if i = j then e.tasks[j]?.map fun t => (t.deliver v).1 else e.tasks[j]? := by
  cases ht : e.tasks[i]? with
  | none =>
    rw [deliver_of_none ht]
    split
    · rename_i hij
      rw [← hij, ht]; rfl
    · rfl
  | some t =>
    cases h : (t.deliver v).2
    · have hsame : (t.deliver v).1 = t := by
        rw [Task.deliver_eq] at h ⊢
        split <;> simp_all
      rw [deliver_of_later ht h]
      split
      · rename_i hij
        rw [← hij, ht, Option.map_some, hsame]; exact ht
      · rfl
    · rw [deliver_of_first ht h]
      simp only [Array.getElem?_modify]
      split
      · rename_i hij
        rw [← hij, ht]; rfl
      · rfl

/-! ## The worker -/

theorem foldl_enqueue_eq (e : Engine σ) (i : Nat) (next : List Stage) :
    next.foldl (fun e s => e.enqueue i s) e =
      { e with
        loops := (next.foldl (fun e s => e.enqueue i s) e).loops
        woken := (next.foldl (fun e s => e.enqueue i s) e).woken } := by
  induction next generalizing e with
  | nil => rfl
  | cons s next ih => exact ih (e.enqueue i s)

theorem loop_enqueue (e : Engine σ) (i : Nat) (s t : Stage) :
    (e.enqueue i s).loop t =
      if s = t then { e.loop t with queue := (e.loop t).queue ++ [i] } else e.loop t := by
  have h : (e.enqueue i s).loop t =
      (e.setLoop s { e.loop s with queue := (e.loop s).queue ++ [i] }).loop t := rfl
  rw [h, loop_setLoop]
  split
  · rename_i hst; subst hst; rfl
  · rfl

/-- Each stage a task goes to gets it at the end of its queue, once for each time it is named. -/
theorem loop_foldl_enqueue (e : Engine σ) (i : Nat) (next : List Stage) (t : Stage) :
    (next.foldl (fun e s => e.enqueue i s) e).loop t =
      { e.loop t with queue := (e.loop t).queue ++ List.replicate (next.count t) i } := by
  induction next generalizing e with
  | nil => simp
  | cons s next ih =>
    rw [List.foldl_cons, ih, loop_enqueue]
    by_cases h : s = t
    · subst h
      simp [List.replicate_succ]
    · simp [h]

theorem retire_eq (e : Engine σ) (i : Nat) :
    e.retire .steady i =
      { e with
        tasks := (e.retire .steady i).tasks
        registry := (e.retire .steady i).registry
        finishes := (e.retire .steady i).finishes
        journal := (e.retire .steady i).journal } := by
  unfold retire
  split <;> rfl

theorem retire_of_some {e : Engine σ} {i : Nat} {t : Task} (h : e.tasks[i]? = some t) :
    e.retire .steady i =
      { e with
        tasks := e.tasks.modify i Task.close
        registry := e.registry.erase i
        finishes := ⟨e.now, t.descriptor.strategy.label, t.method, t.elapsed e.now⟩ :: e.finishes
        journal := (e.retire .steady i).journal } := by
  simp only [retire, h]
  rfl

theorem place_eq (e : Engine σ) (i : Nat) (source : Option Stage) (next : List Stage) :
    e.place i source next =
      { e with
        tasks := (e.place i source next).tasks
        registry := (e.place i source next).registry
        loops := (e.place i source next).loops
        woken := (e.place i source next).woken
        finishes := (e.place i source next).finishes
        journal := (e.place i source next).journal } := by
  unfold place placeUnder
  split
  · rfl
  · simp only
    split
    · rw [retire_eq, foldl_enqueue_eq]
      rfl
    · rw [foldl_enqueue_eq]
      rfl

/-- A task that some stage still holds after a move. -/
theorem place_of_held {e : Engine σ} {i : Nat} {t : Task} {source : Option Stage}
    {next : List Stage} (ht : e.tasks[i]? = some t) (h : (t.moveTo source next).2 = false) :
    e.place i source next =
      { e with
        tasks := e.tasks.modify i fun _ => (t.moveTo source next).1
        loops := (e.place i source next).loops
        woken := (e.place i source next).woken } := by
  simp only [place, placeUnder, ht, h]
  simp only [Bool.false_eq_true, if_false]
  rw [foldl_enqueue_eq]
  rfl

/-- A task that no stage holds after a move is retired. -/
theorem place_of_finished {e : Engine σ} {i : Nat} {t : Task} {source : Option Stage}
    {next : List Stage} (ht : e.tasks[i]? = some t) (h : (t.moveTo source next).2 = true) :
    e.place i source next =
      { e with
        tasks := e.tasks.modify i fun _ => (t.moveTo source next).1.close
        registry := e.registry.erase i
        loops := (e.place i source next).loops
        woken := (e.place i source next).woken
        finishes := ⟨e.now, t.descriptor.strategy.label, t.method, t.elapsed e.now⟩ :: e.finishes
        journal := (e.place i source next).journal } := by
  have hd : (t.moveTo source next).1.descriptor = t.descriptor := by rw [Task.moveTo_eq]
  have hs : (t.moveTo source next).1.started = t.started := by rw [Task.moveTo_eq]
  have hi : (next.foldl (fun e s => e.enqueue i s)
      (e.updateTask i fun _ => (t.moveTo source next).1)).tasks[i]? =
      some (t.moveTo source next).1 := by
    rw [foldl_enqueue_eq]
    simp [tasks_updateTask, ht]
  simp only [place, placeUnder, ht, h, if_true]
  rw [retire_of_some hi, foldl_enqueue_eq]
  simp only [updateTask, modify_modify, Task.method, Task.elapsed, hd, hs]

theorem tasks_place {e : Engine σ} {i : Nat} {t : Task} (source : Option Stage)
    (next : List Stage) (ht : e.tasks[i]? = some t) (j : Nat) :
    (e.place i source next).tasks[j]? =
      if i = j then some (t.moved source next) else e.tasks[j]? := by
  by_cases hf : t.without source ++ next = []
  · have hm := t.moveTo_eq source next
    rw [if_pos hf, decide_eq_true hf] at hm
    rw [place_of_finished ht (by rw [hm]), Array.getElem?_modify]
    split
    · rename_i hij
      rw [← hij, ht, hm, Task.moved, if_pos hf, hf]; rfl
    · rfl
  · have hm := t.moveTo_eq source next
    rw [if_neg hf, decide_eq_false hf] at hm
    rw [place_of_held ht (by rw [hm]), Array.getElem?_modify]
    split
    · rename_i hij
      rw [← hij, ht, hm, Task.moved, if_neg hf]; rfl
    · rfl

theorem size_place (e : Engine σ) (i : Nat) (source : Option Stage) (next : List Stage) :
    (e.place i source next).tasks.size = e.tasks.size := by
  cases ht : e.tasks[i]? with
  | none => simp only [place, placeUnder, ht]
  | some t =>
    cases hf : (t.moveTo source next).2 with
    | false => rw [place_of_held ht hf, Array.size_modify]
    | true => rw [place_of_finished ht hf, Array.size_modify]

/-- A task that no stage holds any more leaves the registry, and the time tracker is told. -/
theorem registry_place {e : Engine σ} {i : Nat} {t : Task} (source : Option Stage)
    (next : List Stage) (ht : e.tasks[i]? = some t) :
    (e.place i source next).registry =
        (if t.without source ++ next = [] then e.registry.erase i else e.registry) ∧
      (e.place i source next).finishes =
        if t.without source ++ next = [] then
          ⟨e.now, t.descriptor.strategy.label, t.method, t.elapsed e.now⟩ :: e.finishes
        else e.finishes := by
  by_cases hf : t.without source ++ next = []
  · rw [if_pos hf, if_pos hf]
    rw [place_of_finished ht (by rw [t.moveTo_eq]; exact decide_eq_true hf)]
    exact ⟨rfl, rfl⟩
  · rw [if_neg hf, if_neg hf]
    rw [place_of_held ht (by rw [t.moveTo_eq]; exact decide_eq_false hf)]
    exact ⟨rfl, rfl⟩

theorem loop_place {e : Engine σ} {i : Nat} {t : Task} (source : Option Stage) (next : List Stage)
    (s : Stage) (ht : e.tasks[i]? = some t) :
    (e.place i source next).loop s =
      { e.loop s with queue := (e.loop s).queue ++ List.replicate (next.count s) i } := by
  have hl := loop_foldl_enqueue (e.updateTask i fun _ => (t.moveTo source next).1) i next s
  simp only [place, placeUnder, ht]
  split
  · rw [retire_eq]
    exact hl
  · exact hl

theorem create_eq (e : Engine σ) (d : Descriptor) :
    (e.create d).2 =
      { e with
        tasks := (e.create d).2.tasks
        nextTask := e.nextTask + 1
        registry := (e.create d).2.registry
        loops := (e.create d).2.loops
        woken := (e.create d).2.woken
        finishes := (e.create d).2.finishes
        journal := (e.create d).2.journal } := by
  simp only [create]
  rw [place_eq]
  rfl

/-- A fresh task waits in the first stage, which is the only one to hold it. -/
theorem tasks_create (e : Engine σ) (d : Descriptor) :
    (e.create d).2.tasks =
      e.tasks.push { Task.fresh e.nextTask e.now d with holding := [.initial] } := by
  have ht : (e.tasks.push (Task.fresh e.nextTask e.now d))[e.tasks.size]? =
      some (Task.fresh e.nextTask e.now d) := by simp
  have hm : (Task.fresh e.nextTask e.now d).moveTo none [.initial] =
      ({ Task.fresh e.nextTask e.now d with holding := [.initial] }, false) := by
    rw [Task.moveTo_eq]; rfl
  simp only [create]
  rw [place_of_held ht (by rw [hm]), hm]
  simp only [report]
  apply Array.ext
  · simp
  · intro j h₁ h₂
    rw [Array.size_modify, Array.size_push] at h₁
    rw [Array.getElem_modify, Array.getElem_push, Array.getElem_push]
    split <;> split <;> first | rfl | omega

theorem registry_create (e : Engine σ) (d : Descriptor) :
    (e.create d).2.registry = e.registry ++ [e.tasks.size] := by
  have ht : (e.tasks.push (Task.fresh e.nextTask e.now d))[e.tasks.size]? =
      some (Task.fresh e.nextTask e.now d) := by simp
  simp only [create]
  rw [place_of_held ht (by rw [Task.moveTo_eq]; rfl)]
  rfl

theorem finishes_create (e : Engine σ) (d : Descriptor) :
    (e.create d).2.finishes = e.finishes := by
  have ht : (e.tasks.push (Task.fresh e.nextTask e.now d))[e.tasks.size]? =
      some (Task.fresh e.nextTask e.now d) := by simp
  simp only [create]
  rw [place_of_held ht (by rw [Task.moveTo_eq]; rfl)]
  rfl

/-- The fresh task comes after those there are. -/
theorem getElem?_create (e : Engine σ) (d : Descriptor) (i : Nat) :
    (e.create d).2.tasks[i]? =
      if i = e.tasks.size then some { Task.fresh e.nextTask e.now d with holding := [.initial] }
      else e.tasks[i]? := by
  rw [tasks_create, Array.getElem?_push]

theorem getElem?_create_of_some {e : Engine σ} {i : Nat} {t : Task} (ht : e.tasks[i]? = some t)
    (d : Descriptor) : (e.create d).2.tasks[i]? = some t := by
  have hi : i < e.tasks.size := (Array.getElem?_eq_some_iff.1 ht).1
  rw [getElem?_create, if_neg (Nat.ne_of_lt hi), ht]

theorem loop_create (e : Engine σ) (d : Descriptor) (s : Stage) :
    (e.create d).2.loop s =
      { e.loop s with
        queue := (e.loop s).queue ++ List.replicate ([Stage.initial].count s) e.tasks.size } := by
  have ht : (e.tasks.push (Task.fresh e.nextTask e.now d))[e.tasks.size]? =
      some (Task.fresh e.nextTask e.now d) := by simp
  simp only [create]
  exact loop_place none [.initial] s ht

/-- A request joins a task or gets its own. -/
theorem accept_cases (e : Engine σ) (d : Descriptor) :
    (∃ i t, d.bindable = true ∧ Task.joinable? e.unfinished d.method d.cacheKey = some (i, t) ∧
      e.accept d = (i, e.report (.taskBound t.id t.method t.resultsCount))) ∨
    ((d.bindable = true → Task.joinable? e.unfinished d.method d.cacheKey = none) ∧
      e.accept d = e.create d) := by
  unfold accept
  cases hb : d.bindable
  · right; simp
  · cases hj : Task.joinable? e.unfinished d.method d.cacheKey with
    | none => right; simp
    | some x => left; exact ⟨x.1, x.2, rfl, rfl, by simp⟩

theorem accept_eq (e : Engine σ) (d : Descriptor) :
    (e.accept d).2 =
      { e with
        tasks := (e.accept d).2.tasks
        nextTask := (e.accept d).2.nextTask
        registry := (e.accept d).2.registry
        loops := (e.accept d).2.loops
        woken := (e.accept d).2.woken
        finishes := (e.accept d).2.finishes
        journal := (e.accept d).2.journal } := by
  rcases accept_cases e d with ⟨i, t, -, -, h⟩ | ⟨-, h⟩
  · rw [h]; rfl
  · rw [h, create_eq]

theorem handle_eq (e : Engine σ) (c : Command) :
    e.handle c =
      { e with
        tasks := (e.handle c).tasks
        nextTask := (e.handle c).nextTask
        registry := (e.handle c).registry
        replies := (e.handle c).replies
        loops := (e.handle c).loops
        woken := (e.handle c).woken
        finishes := (e.handle c).finishes
        journal := (e.handle c).journal } := by
  cases c with
  | submit d reply => simp only [handle]; rw [accept_eq]
  | transition i source verdict => simp only [handle]; rw [place_eq]

/-- The worker puts tasks at the ends of queues. -/
theorem loop_handle (e : Engine σ) (c : Command) (s : Stage) :
    ∃ new, (e.handle c).loop s = { e.loop s with queue := (e.loop s).queue ++ new } := by
  have hsame : ∀ e' : Engine σ, e'.loop s = e.loop s →
      ∃ new, e'.loop s = { e.loop s with queue := (e.loop s).queue ++ new } := fun e' h =>
    ⟨[], by rw [h, List.append_nil]⟩
  cases c with
  | submit d reply =>
    rcases accept_cases e d with ⟨i, t, -, -, h⟩ | ⟨-, h⟩
    · exact hsame _ (by simp only [handle, h]; rfl)
    · refine ⟨List.replicate ([Stage.initial].count s) e.tasks.size, ?_⟩
      rw [← loop_create e d s]
      simp only [handle, h]
      rfl
  | transition i source verdict =>
    cases ht : e.tasks[i]? with
    | none => exact hsame _ (by simp only [handle, place, placeUnder, ht])
    | some t => exact ⟨_, loop_place _ _ s ht⟩

/-! ## The loops -/

/-- Promises for tasks: fresh numbers are given out, and nothing else changes. -/
theorem promises_eq (e : Engine σ) (stage : Stage) (l : List Nat) :
    (e.promises stage l).2 =
      { e with used := e.used ++ Array.replicate (e.promises stage l).1.length false } := by
  induction l generalizing e with
  | nil => simp [promises]
  | cons i l ih =>
    cases hp : e.promise? stage i with
    | none =>
      simp only [promises, hp]
      exact ih e
    | some p =>
      simp only [promises, hp, List.length_cons]
      rw [ih]
      simp only [Array.push_eq_append, Array.append_assoc, Nat.add_comm _ 1,
        ← Array.replicate_append_replicate]
      rfl

/-- What is known of a promise that has just been made in a stage. -/
theorem forall_promises {e : Engine σ} {stage : Stage} {l : List Nat} {p : Promise}
    (hp : p ∈ (e.promises stage l).1) :
    p.stage = stage ∧ ∃ t, e.tasks[p.task]? = some t ∧ p.taskId = t.id ∧
      p.descriptor = t.descriptor := by
  induction l generalizing e with
  | nil => simp [promises] at hp
  | cons i l ih =>
    cases ht : e.tasks[i]? with
    | none =>
      have hn : e.promise? stage i = none := by simp [promise?, ht]
      simp only [promises, hn] at hp
      exact ih hp
    | some t =>
      have hs : e.promise? stage i = some ⟨e.used.size, i, t.id, stage, t.descriptor⟩ := by
        simp [promise?, ht]
      simp only [promises, hs, List.mem_cons] at hp
      rcases hp with rfl | hp
      · exact ⟨rfl, t, ht, rfl, rfl⟩
      · exact ih (e := { e with used := e.used.push false }) hp

/-- Every task gets its promise, in order. -/
theorem map_task_promises {e : Engine σ} {l : List Nat} (stage : Stage)
    (h : ∀ i ∈ l, i < e.tasks.size) : (e.promises stage l).1.map Promise.task = l := by
  induction l generalizing e with
  | nil => rfl
  | cons i l ih =>
    have hi : i < e.tasks.size := h i (by simp)
    have hs : e.promise? stage i =
        some ⟨e.used.size, i, e.tasks[i].id, stage, e.tasks[i].descriptor⟩ := by
      simp [promise?, hi]
    simp only [promises, hs, List.map_cons]
    rw [ih (e := { e with used := e.used.push false }) fun j hj => h j (by simp [hj])]

/-- The numbers of promises that are made together follow those given out before. -/
theorem map_number_promises (e : Engine σ) (stage : Stage) (l : List Nat) :
    (e.promises stage l).1.map Promise.number =
      List.range' e.used.size (e.promises stage l).1.length := by
  induction l generalizing e with
  | nil => rfl
  | cons i l ih =>
    cases ht : e.tasks[i]? with
    | none =>
      have hn : e.promise? stage i = none := by simp [promise?, ht]
      simp only [promises, hn]
      exact ih e
    | some t =>
      have hs : e.promise? stage i = some ⟨e.used.size, i, t.id, stage, t.descriptor⟩ := by
        simp [promise?, ht]
      simp only [promises, hs, List.map_cons, List.length_cons]
      rw [ih, List.range'_succ, Array.size_push]

/-- Promises that were just made are handed to a new handler. -/
def assign (e : Engine σ) (stage : Stage) (ps : List Promise) (r : Routine) : Engine σ :=
  { e with
    used := e.used ++ Array.replicate ps.length false
    handlers := e.handlers.push ⟨stage, ps, .running r, false⟩ }

theorem handWindow_eq (e : Engine σ) (stage : Stage) (members : List Nat) :
    e.handWindow stage members =
      { e.assign stage (e.promises stage members).1
          ((e.blocks stage).onWindow (e.promises stage members).1) with
        woken := (e.handWindow stage members).woken } := by
  simp only [handWindow, startHandler, wake]
  rw [promises_eq]
  rfl

theorem loop_handWindow (e : Engine σ) (s t : Stage) (members : List Nat) :
    (e.handWindow s members).loop t = e.loop t := by
  rw [handWindow_eq]
  rfl

theorem handOne_eq {e : Engine σ} {i : Nat} {t : Task} (stage : Stage)
    (ht : e.tasks[i]? = some t) :
    (e.promises stage [i]).1 = [⟨e.used.size, i, t.id, stage, t.descriptor⟩] ∧
      e.handOne stage i =
        { e.assign stage (e.promises stage [i]).1
            ((e.blocks stage).onTask ⟨e.used.size, i, t.id, stage, t.descriptor⟩) with
          woken := (e.handOne stage i).woken } := by
  have hs : e.promise? stage i = some ⟨e.used.size, i, t.id, stage, t.descriptor⟩ := by
    simp [promise?, ht]
  constructor
  · simp only [promises, hs]
  · simp only [handOne, promises, hs, startHandler, wake, assign, List.length_cons,
      List.length_nil, Array.push_eq_append]
    rfl

theorem handOne_of_none {e : Engine σ} {i : Nat} (stage : Stage) (ht : e.tasks[i]? = none) :
    e.handOne stage i = e := by
  have hn : e.promise? stage i = none := by simp [promise?, ht]
  simp only [handOne, promises, hn]

theorem handOne_frame (e : Engine σ) (stage : Stage) (i : Nat) :
    e.handOne stage i =
      { e with
        used := (e.handOne stage i).used
        handlers := (e.handOne stage i).handlers
        woken := (e.handOne stage i).woken } := by
  cases ht : e.tasks[i]? with
  | none => rw [handOne_of_none stage ht]
  | some t => rw [(handOne_eq stage ht).2]; rfl

/-! ## Handlers, readers and the end -/

/-- An instruction changes neither loops nor registry, and gives no promises. -/
theorem instruct_eq (env : Environment σ) (index : Nat) (e : Engine σ) (r : Routine) :
    e.instruct env index r =
      { e with
        world := (e.instruct env index r).world
        tasks := (e.instruct env index r).tasks
        used := (e.instruct env index r).used
        inbox := (e.instruct env index r).inbox
        handlers := (e.instruct env index r).handlers
        events := (e.instruct env index r).events
        board := (e.instruct env index r).board
        heard := (e.instruct env index r).heard
        flags := (e.instruct env index r).flags
        counts := (e.instruct env index r).counts
        woken := (e.instruct env index r).woken
        journal := (e.instruct env index r).journal
        notes := (e.instruct env index r).notes } := by
  cases r with
  | finish ending => simp only [instruct]; rw [endHandler_eq]
  | look p k =>
    simp only [instruct]
    split
    · rfl
    · rw [endHandler_eq]
  | complete p m k => simp only [instruct]; rw [complete_eq]; rfl
  | deliver p v k => simp only [instruct]; rw [deliver_eq]; rfl
  | _ => rfl

theorem inbox_instruct (env : Environment σ) (index : Nat) (e : Engine σ) (r : Routine) :
    e.inbox <+: (e.instruct env index r).inbox := by
  have hend : ∀ ending, (e.endHandler index ending).inbox = e.inbox := by
    intro ending
    rw [endHandler_eq]
  cases r with
  | finish ending => exact hend ending ▸ List.prefix_rfl
  | look p k =>
    simp only [instruct]
    split
    · exact List.prefix_rfl
    · exact hend .ok ▸ List.prefix_rfl
  | complete p m k => exact inbox_complete e p m
  | deliver p v k =>
    have hd : (e.deliver p.task v).2.inbox = e.inbox := by rw [deliver_eq]
    exact hd ▸ List.prefix_rfl
  | _ => exact List.prefix_rfl

/-- An instruction creates no task and adds no command but transitions. -/
theorem requests_instruct {α : Type} {f : Command → Option α}
    (hf : ∀ i source verdict, f (.transition i source verdict) = none) (env : Environment σ)
    (index : Nat) (e : Engine σ) (r : Routine) :
    (e.instruct env index r).tasks.size = e.tasks.size ∧
      (e.instruct env index r).inbox.filterMap f = e.inbox.filterMap f := by
  have hend : ∀ ending, (e.endHandler index ending).tasks.size = e.tasks.size ∧
      (e.endHandler index ending).inbox.filterMap f = e.inbox.filterMap f := by
    intro ending
    rw [endHandler_eq]
    exact ⟨rfl, rfl⟩
  cases r with
  | finish ending => exact hend ending
  | look p k =>
    simp only [instruct]
    split
    · exact ⟨rfl, rfl⟩
    · exact hend .ok
  | complete p m k => exact ⟨size_complete e p m, filterMap_inbox_complete hf e p m⟩
  | deliver p v k =>
    refine ⟨size_deliver e p.task v, ?_⟩
    have hd : (e.deliver p.task v).2.inbox = e.inbox := by rw [deliver_eq]
    exact congrArg (List.filterMap f) hd
  | _ => exact ⟨rfl, rfl⟩

theorem readBus_eq (e : Engine σ) (index : Nat) :
    e.readBus index =
      { e with
        subscribers := (e.readBus index).subscribers
        journal := (e.readBus index).journal } := by
  unfold readBus
  split
  · rfl
  · split
    · rfl
    · simp only
      split
      · rfl
      · rfl
      · split <;> rfl

theorem foldl_refuse_eq (e : Engine σ) (l : List Command) :
    l.foldl refuse e = { e with replies := (l.foldl refuse e).replies } := by
  induction l generalizing e with
  | nil => rfl
  | cons c l ih =>
    rw [List.foldl_cons, ih]
    cases c <;> rfl

theorem foldl_close_eq (e : Engine σ) (l : List Nat) :
    l.foldl (fun e i => e.updateTask i Task.close) e =
      { e with tasks := (l.foldl (fun e i => e.updateTask i Task.close) e).tasks } := by
  induction l generalizing e with
  | nil => rfl
  | cons i l ih => exact ih (e.updateTask i Task.close)

theorem stopWorker_eq (e : Engine σ) :
    e.stopWorker =
      { e with
        tasks := e.stopWorker.tasks
        inbox := []
        replies := e.stopWorker.replies
        journal := e.stopWorker.journal
        stopped := true } := by
  simp only [stopWorker]
  rw [foldl_refuse_eq, foldl_close_eq]
  rfl

theorem size_foldl_close (e : Engine σ) (l : List Nat) :
    (l.foldl (fun e i => e.updateTask i Task.close) e).tasks.size = e.tasks.size := by
  induction l generalizing e with
  | nil => rfl
  | cons i l ih => exact (ih (e.updateTask i Task.close)).trans Array.size_modify

/-- The worker closes the delivery of every unfinished task when it stops. -/
theorem tasks_stopWorker (e : Engine σ) :
    e.stopWorker.tasks = (e.registry.foldl (fun e i => e.updateTask i Task.close) e).tasks := by
  simp only [stopWorker]
  rw [foldl_refuse_eq]
  rfl

/-- The worker closes the delivery of the tasks in the registry. -/
theorem getElem?_stopWorker (e : Engine σ) (i : Nat) :
    e.stopWorker.tasks[i]? =
      if i ∈ e.registry then e.tasks[i]?.map Task.close else e.tasks[i]? := by
  rw [tasks_stopWorker]
  generalize e.registry = l
  induction l generalizing e with
  | nil => rfl
  | cons j l ih =>
    rw [List.foldl_cons, ih, tasks_updateTask]
    by_cases hj : j = i
    · subst hj
      rw [if_pos rfl, if_pos List.mem_cons_self, Option.map_map]
      split <;> rfl
    · rw [if_neg hj]
      simp only [List.mem_cons, Ne.symm hj, false_or]

theorem shutdown_eq (e : Engine σ) :
    e.shutdown = { e with cancelled := true, woken := e.shutdown.woken } := by
  simp only [shutdown, wakeSubscribers_eq, foldl_wake]
  rfl

theorem submit_eq (e : Engine σ) (d : Descriptor) :
    (e.submit d).2 =
      { e with
        inbox := if e.stopped then e.inbox else e.inbox ++ [.submit d e.replies.size]
        replies := e.replies.push (if e.stopped then .refused else .waiting)
        woken := (e.submit d).2.woken } := by
  cases h : e.stopped <;> simp [submit, h, send, wake]

/-! ## What no step changes -/

variable {env : Environment σ} {drift : σ → σ → Prop} {blocks : Stage → Block} {e e' : Engine σ}

/-- An engine keeps its blocks, it does not forget that it was told to stop, and its worker stops
only then. -/
theorem Step.frame (h : Step env drift e e') :
    e'.blocks = e.blocks ∧ (e'.cancelled = false → e.cancelled = false) ∧
      ((e.stopped = true → e.cancelled = true) → e'.stopped = true → e'.cancelled = true) := by
  cases h with
  | submit d => rw [submit_eq]; exact ⟨rfl, id, id⟩
  | shutdown => rw [shutdown_eq]; exact ⟨rfl, fun h => Bool.noConfusion h, fun _ _ => rfl⟩
  | work c rest => rw [handle_eq]; exact ⟨rfl, id, id⟩
  | stop hc => rw [stopWorker_eq]; exact ⟨rfl, id, fun _ _ => hc⟩
  | take stage index rest => rw [handOne_frame]; exact ⟨rfl, id, id⟩
  | closeWindow stage w => rw [handWindow_eq]; exact ⟨rfl, id, id⟩
  | run index h r => rw [instruct_eq]; exact ⟨rfl, id, id⟩
  | rescue index h ending error p => rw [complete_eq]; exact ⟨rfl, id, id⟩
  | read index => rw [readBus_eq]; exact ⟨rfl, id, id⟩
  | _ => exact ⟨rfl, id, id⟩

/-- An engine that has not been told to stop was never told so. -/
theorem Steps.cancelled (h : Steps env drift e e') (hc : e'.cancelled = false) :
    e.cancelled = false := by
  induction h with
  | refl => exact hc
  | tail _ hs ih => exact ih (hs.frame.2.1 hc)

/-- What windows have when they are opened and keep when tasks join, all open windows have. -/
theorem Step.gathering (hs : Step env drift e e') {P : Stage → OpenWindow → Prop}
    (opens : ∀ s i deadline, (e.blocks s).window ≠ none → P s ⟨[i], deadline⟩)
    (joins : ∀ s w i, P s w → P s { w with members := w.members ++ [i] })
    (h : ∀ s w, (e.loop s).gathering = some w → P s w) {s : Stage} {w : OpenWindow}
    (hw : (e'.loop s).gathering = some w) : P s w := by
  have hsame : e'.loops = e.loops → P s w := by
    intro hl
    rw [loop, hl] at hw
    exact h s w hw
  -- the loop of one stage is changed
  have hset : ∀ stage l, (∀ w, l.gathering = some w → P stage w) →
      e'.loop s = (e.setLoop stage l).loop s → P s w := by
    intro stage l hl hloop
    rw [hloop, loop_setLoop] at hw
    split at hw
    · rename_i hst
      exact hst ▸ hl w hw
    · exact h s w hw
  cases hs with
  | submit d => exact hsame (by rw [submit_eq])
  | shutdown => exact hsame (by rw [shutdown_eq])
  | work c rest =>
    obtain ⟨new, hnew⟩ := loop_handle { e with inbox := rest } c s
    have hg : (e.loop s).gathering = some w := (congrArg Loop.gathering hnew).symm.trans hw
    exact h s w hg
  | stop => exact hsame (by rw [stopWorker_eq])
  | take stage index rest =>
    exact hset stage { e.loop stage with queue := rest } (fun w hw => h stage w hw)
      (by rw [handOne_frame]; rfl)
  | openWindow stage window index rest hc hwindow =>
    refine hset stage _ (fun w hw => ?_) rfl
    cases hw
    exact opens stage index _ (by rw [hwindow]; exact Option.some_ne_none window)
  | gather stage w' index rest hc hwindow hg =>
    refine hset stage _ (fun w hw => ?_) rfl
    cases hw
    exact joins stage w' index (h stage w' hg)
  | closeWindow stage w' =>
    exact hset stage { e.loop stage with gathering := none } (fun w hw => by cases hw)
      (by rw [handWindow_eq]; rfl)
  | forget stage => exact hset stage _ (fun w hw => by cases hw) rfl
  | run index x r => exact hsame (by rw [instruct_eq])
  | rescue index x ending error p => exact hsame (by rw [complete_eq])
  | read index => exact hsame (by rw [readBus_eq])
  | _ => exact hsame rfl

/-- A window that is open holds the task that opened it. -/
theorem Reachable.window_ne_nil (he : Reachable env drift blocks e) :
    ∀ s w, (e.loop s).gathering = some w → w.members ≠ [] := by
  induction he with
  | start world =>
    intro s w hw
    simp [loop, Engine.start] at hw
  | step _ hs ih =>
    exact fun s w => hs.gathering (P := fun _ w => w.members ≠ [])
      (fun _ i _ _ => List.cons_ne_nil i [])
      (fun _ w i _ => List.append_ne_nil_of_right_ne_nil w.members (List.cons_ne_nil i [])) ih

theorem Reachable.blocks_eq (h : Reachable env drift blocks e) : e.blocks = blocks := by
  induction h with
  | start world => rfl
  | step _ hs ih => rw [hs.frame.1, ih]

/-- Only a stage with a window opens one. -/
theorem Reachable.window_ne_none (he : Reachable env drift blocks e) :
    ∀ s w, (e.loop s).gathering = some w → (blocks s).window ≠ none := by
  induction he with
  | start world =>
    intro s w hw
    simp [loop, Engine.start] at hw
  | step he hs ih =>
    exact fun s w => hs.gathering (P := fun s _ => (blocks s).window ≠ none)
      (fun s _ _ hw => he.blocks_eq ▸ hw) (fun _ _ _ h => h) ih

/-- The worker runs until the engine is told to stop. -/
theorem Reachable.running (h : Reachable env drift blocks e) (hc : e.cancelled = false) :
    e.stopped = false := by
  have hi : e.stopped = true → e.cancelled = true := by
    induction h with
    | start world => exact fun hs => Bool.noConfusion hs
    | step _ hs ih => exact hs.frame.2.2 (ih (hs.frame.2.1 hc))
  cases hs : e.stopped with
  | false => rfl
  | true => rw [hi hs] at hc; exact hc

end Engine
end RpcFlow
