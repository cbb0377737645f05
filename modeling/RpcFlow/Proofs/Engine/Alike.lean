import RpcFlow.Proofs.Engine.Changes
import RpcFlow.Proofs.Engine.Schedule

/-!
# Engines apart from their surroundings

What becomes of tasks is decided by the worker, by promises and by deliveries.  None of these looks at
the state of the outside world, at the handlers that are there, at the subscribers, at the journal, or
at who waits for a turn.  So two engines that agree in all else go on agreeing.

* `Engine.inner` — an engine without these; `Engine.Alike` — two engines that are the same apart from
  these.
* `Engine.Alike.serve`, `Engine.Alike.complete`, `Engine.Alike.deliver` and others — engines that are
  alike still are so after a change.
-/

set_option autoImplicit false

namespace RpcFlow
namespace Engine

variable {σ ω : Type}

/-- An engine without the world, handlers, subscribers, journal, and those who wait for a turn. -/
def inner (e : Engine σ) : Engine Unit :=
  { e with world := (), handlers := #[], subscribers := #[], woken := [], alarms := [], journal := [] }

/-- Two engines that are the same apart from the world, handlers, subscribers, journals, and those who
wait for a turn. -/
def Alike (e : Engine σ) (f : Engine ω) : Prop := e.inner = f.inner

namespace Alike

variable {e : Engine σ} {f : Engine ω}

/-- What a change makes of an engine it makes of the inner engine too. -/
theorem lift {F : ∀ {σ : Type}, Engine σ → Engine σ}
    (hF : ∀ {σ : Type} (e : Engine σ), Alike (F e) (F e.inner)) (h : Alike e f) :
    Alike (F e) (F f) :=
  (hF e).trans ((congrArg (fun b : Engine Unit => (F b).inner) h).trans (hF f).symm)

theorem foldl {α : Type} {F : ∀ {σ : Type}, Engine σ → α → Engine σ}
    (hF : ∀ {σ ω : Type} {e : Engine σ} {f : Engine ω} (x : α), Alike e f → Alike (F e x) (F f x))
    (h : Alike e f) (l : List α) : Alike (l.foldl F e) (l.foldl F f) := by
  induction l generalizing e f with
  | nil => exact h
  | cons x l ih => exact ih (hF x h)

theorem tasks (h : Alike e f) : e.tasks = f.tasks := congrArg Engine.tasks h

theorem now (h : Alike e f) : e.now = f.now := congrArg Engine.now h

theorem blocks (h : Alike e f) : e.blocks = f.blocks := congrArg Engine.blocks h

theorem cancelled (h : Alike e f) : e.cancelled = f.cancelled := congrArg Engine.cancelled h

theorem loop (h : Alike e f) (stage : Stage) : e.loop stage = f.loop stage :=
  congrArg (fun b => b.loop stage) h

theorem receive (h : Alike e f) (position : Nat) : e.receive position = f.receive position :=
  congrArg (fun b => b.receive position) h

theorem updateTask (h : Alike e f) (i : Nat) (g : Task → Task) :
    Alike (e.updateTask i g) (f.updateTask i g) :=
  lift (F := fun e => e.updateTask i g) (fun _ => rfl) h

theorem setLoop (h : Alike e f) (stage : Stage) (l : Loop) :
    Alike (e.setLoop stage l) (f.setLoop stage l) :=
  lift (F := fun e => e.setLoop stage l) (fun _ => rfl) h

theorem report (h : Alike e f) (m m' : Message) : Alike (e.report m) (f.report m') := h

theorem submit (h : Alike e f) (d : Descriptor) : Alike (e.submit d).2 (f.submit d).2 :=
  lift (F := fun e => (e.submit d).2)
    (fun e => by rw [submit_eq e d, submit_eq e.inner d]; rfl) h

/-! ## The worker -/

theorem retire (h : Alike e f) (i : Nat) : Alike (e.retire .steady i) (f.retire .steady i) := by
  refine lift (F := fun e => e.retire .steady i) (fun e => ?_) h
  have hinner : e.inner.tasks[i]? = e.tasks[i]? := rfl
  unfold Engine.retire
  rw [hinner]
  cases e.tasks[i]? <;> rfl

theorem place (h : Alike e f) (i : Nat) (source : Option Stage) (next : List Stage) :
    Alike (e.place i source next) (f.place i source next) := by
  unfold Engine.place Engine.placeUnder
  rw [h.tasks]
  cases f.tasks[i]? with
  | none => exact h
  | some t =>
    have hqueued := foldl (F := fun e s => e.enqueue i s)
      (fun s h => lift (F := fun e => e.enqueue i s) (fun _ => rfl) h)
      (h.updateTask i fun _ => (t.moveTo source next).1) next
    simp only
    split
    · exact hqueued.retire i
    · exact hqueued

theorem create (h : Alike e f) (d : Descriptor) :
    (e.create d).1 = (f.create d).1 ∧ Alike (e.create d).2 (f.create d).2 := by
  have hpush : Alike
      { e with
        tasks := e.tasks.push (Task.fresh e.nextTask e.now d)
        nextTask := e.nextTask + 1
        registry := e.registry ++ [e.tasks.size] }
      { f with
        tasks := f.tasks.push (Task.fresh f.nextTask f.now d)
        nextTask := f.nextTask + 1
        registry := f.registry ++ [f.tasks.size] } :=
    lift (F := fun e =>
      { e with
        tasks := e.tasks.push (Task.fresh e.nextTask e.now d)
        nextTask := e.nextTask + 1
        registry := e.registry ++ [e.tasks.size] }) (fun _ => rfl) h
  have hsize : e.tasks.size = f.tasks.size := congrArg Array.size h.tasks
  refine ⟨hsize, ?_⟩
  simp only [Engine.create, hsize] at hpush ⊢
  exact place (report hpush _ _) _ none [.initial]

theorem accept (h : Alike e f) (d : Descriptor) :
    (e.accept d).1 = (f.accept d).1 ∧ Alike (e.accept d).2 (f.accept d).2 := by
  have hunfinished : e.unfinished = f.unfinished := congrArg Engine.unfinished h
  unfold Engine.accept
  rw [hunfinished]
  split
  · exact ⟨rfl, report h _ _⟩
  · exact h.create d

theorem handle (h : Alike e f) (c : Command) : Alike (e.handle c) (f.handle c) := by
  cases c with
  | submit d reply =>
    obtain ⟨hindex, hafter⟩ := h.accept d
    simp only [Engine.handle, hindex]
    exact lift (F := fun e => { e with replies := e.replies.setIfInBounds reply (.task _) })
      (fun _ => rfl) hafter
  | transition i source verdict => exact h.place i (some source) verdict.next

theorem serve (h : Alike e f) : Alike e.serve f.serve := by
  refine lift (F := fun e => e.serve) (fun e => ?_) h
  have hcancelled : e.inner.cancelled = e.cancelled := rfl
  have hstopped : e.inner.stopped = e.stopped := rfl
  have hinbox : e.inner.inbox = e.inbox := rfl
  unfold Engine.serve
  simp only [hcancelled, hstopped, hinbox]
  split
  · rename_i c rest _ _ _
    exact handle (e := { e with inbox := rest }) (f := { e.inner with inbox := rest }) rfl c
  · rfl

theorem refuse (h : Alike e f) (c : Command) : Alike (e.refuse c) (f.refuse c) := by
  cases c with
  | submit d reply =>
    exact lift (F := fun e => { e with replies := e.replies.setIfInBounds reply .refused })
      (fun _ => rfl) h
  | transition i source verdict => exact h

theorem stopWorker (h : Alike e f) : Alike e.stopWorker f.stopWorker := by
  have hclosed : Alike (e.registry.foldl (fun e i => e.updateTask i Task.close) e)
      (f.registry.foldl (fun e i => e.updateTask i Task.close) f) := by
    rw [← show e.registry = f.registry from congrArg Engine.registry h]
    exact foldl (F := fun e i => e.updateTask i Task.close) (fun i h => h.updateTask i Task.close) h _
  have hrest : ∀ {e : Engine σ} {f : Engine ω} (m m' : Message), Alike e f →
      Alike { (e.report m).inbox.foldl Engine.refuse (e.report m) with inbox := [], stopped := true }
        { (f.report m').inbox.foldl Engine.refuse (f.report m') with inbox := [], stopped := true } := by
    intro e f m m' h
    have hinbox : (e.report m).inbox = (f.report m').inbox := congrArg Engine.inbox h
    rw [hinbox]
    exact lift (F := fun e => { e with inbox := [], stopped := true }) (fun _ => rfl)
      (foldl (F := fun e c => e.refuse c) (fun c h => h.refuse c) (report h m m') _)
  exact hrest _ _ hclosed

theorem shutdown (h : Alike e f) : Alike e.shutdown f.shutdown := by
  rw [shutdown_eq e, shutdown_eq f]
  exact lift (F := fun e => { e with cancelled := true }) (fun _ => rfl) h

/-! ## Promises and deliveries -/

theorem complete (h : Alike e f) (p : Promise) (m : Move) :
    (e.complete p m).1 = (f.complete p m).1 ∧ Alike (e.complete p m).2 (f.complete p m).2 := by
  have hopen : e.isOpen p = f.isOpen p := congrArg (fun b => b.isOpen p) h
  by_cases ho : f.isOpen p = true
  · rw [complete_of_isOpen ho, complete_of_isOpen (hopen.trans ho)]
    exact ⟨rfl, lift (F := fun e =>
      { e with
        used := e.used.setIfInBounds p.number true
        tasks := e.tasks.modify p.task fun t => t.record (p.verdict m)
        inbox := if e.stopped then e.inbox else e.inbox ++ [.transition p.task p.stage (p.verdict m)] })
      (fun _ => rfl) h⟩
  · have ho : f.isOpen p = false := by simpa using ho
    rw [complete_of_used ho, complete_of_used (hopen.trans ho)]
    exact ⟨rfl, h⟩

theorem deliver (h : Alike e f) (i : Nat) (v : Verdict) :
    (e.deliver i v).1 = (f.deliver i v).1 ∧ Alike (e.deliver i v).2 (f.deliver i v).2 := by
  have htask : e.tasks[i]? = f.tasks[i]? := by rw [h.tasks]
  cases ht : f.tasks[i]? with
  | none =>
    rw [deliver_of_none ht, deliver_of_none (htask.trans ht)]
    exact ⟨rfl, h⟩
  | some t =>
    cases hd : (t.deliver v).2 with
    | false =>
      rw [deliver_of_later ht hd, deliver_of_later (htask.trans ht) hd]
      exact ⟨rfl, h⟩
    | true =>
      rw [deliver_of_first ht hd, deliver_of_first (htask.trans ht) hd]
      exact ⟨rfl, lift (F := fun e =>
        { e with
          tasks := e.tasks.modify i fun _ => (t.deliver v).1
          events := e.events.push ⟨t.id, t.method, t.descriptor.cacheKey, v⟩ }) (fun _ => rfl) h⟩

theorem promises (h : Alike e f) (stage : Stage) (l : List Nat) :
    (e.promises stage l).1 = (f.promises stage l).1 ∧
      Alike (e.promises stage l).2 (f.promises stage l).2 := by
  induction l generalizing e f with
  | nil => exact ⟨rfl, h⟩
  | cons i l ih =>
    have hp : e.promise? stage i = f.promise? stage i := congrArg (fun b => b.promise? stage i) h
    simp only [Engine.promises, hp]
    cases f.promise? stage i with
    | none => exact ih h
    | some p =>
      obtain ⟨hps, hafter⟩ := ih (e := { e with used := e.used.push false })
        (f := { f with used := f.used.push false })
        (lift (F := fun e => { e with used := e.used.push false }) (fun _ => rfl) h)
      exact ⟨congrArg (p :: ·) hps, hafter⟩

/-! ## Handlers and readers -/

theorem handOne (h : Alike e f) (stage : Stage) (i : Nat) :
    Alike (e.handOne stage i) (f.handOne stage i) := by
  have htask : e.tasks[i]? = f.tasks[i]? := by rw [h.tasks]
  cases ht : f.tasks[i]? with
  | none =>
    rw [handOne_of_none stage ht, handOne_of_none stage (htask.trans ht)]
    exact h
  | some t =>
    rw [(handOne_eq stage ht).2, (handOne_eq stage (htask.trans ht)).2, (handOne_eq stage ht).1,
      (handOne_eq stage (htask.trans ht)).1]
    exact lift (F := fun e => { e with used := e.used ++ Array.replicate 1 false }) (fun _ => rfl) h

theorem handWindow (h : Alike e f) (stage : Stage) (members : List Nat) :
    Alike (e.handWindow stage members) (f.handWindow stage members) :=
  (h.promises stage members).2

theorem endHandler (h : Alike e f) (i j : Nat) (ending ending' : Ending) :
    Alike (e.endHandler i ending) (f.endHandler j ending') := by
  rw [endHandler_eq e, endHandler_eq f]
  exact h

theorem readBus (h : Alike e f) (i j : Nat) : Alike (e.readBus i) (f.readBus j) := by
  rw [readBus_eq e, readBus_eq f]
  exact h

end Alike
end Engine
end RpcFlow
