import RpcFlow.Proofs.Engine.Alike

/-!
# Engines apart from the world

An engine does not look at the state of the outside world, which it hands on, nor at its journal, nor at
who waits for a turn, and it looks at handlers only to let them go on.  So two engines that agree in all
else go on agreeing, whatever the two worlds are.

* `Engine.bare` — an engine without these; `Engine.Agree` — two engines that are the same apart from
  these: they are alike and have the same subscribers (`Engine.Agree.change`).
* `Engine.Agree.serve`, `Engine.Agree.complete` and others — engines that agree still do so after a
  change.
-/

set_option autoImplicit false

namespace RpcFlow
namespace Engine

variable {σ ω : Type}

/-- An engine without the world, handlers, journal, and those who wait for a turn. -/
def bare (e : Engine σ) : Engine Unit :=
  { e with world := (), handlers := #[], woken := [], alarms := [], journal := [] }

/-- Two engines that are the same apart from the world, handlers, journals, and those who wait for a
turn. -/
def Agree (e : Engine σ) (f : Engine ω) : Prop := e.bare = f.bare

namespace Agree

variable {e e' : Engine σ} {f f' : Engine ω}

theorem alike (h : Agree e f) : Alike e f := congrArg Engine.inner h

theorem tasks (h : Agree e f) : e.tasks = f.tasks := h.alike.tasks

/-- A change that does not concern subscribers. -/
theorem change (h : Agree e f) (halike : Alike e' f') (he : e'.subscribers = e.subscribers)
    (hf : f'.subscribers = f.subscribers) : Agree e' f' := by
  have hbare : ∀ {ρ : Type} (e : Engine ρ), e.bare = { e.inner with subscribers := e.subscribers } :=
    fun _ => rfl
  have hsame : e.subscribers = f.subscribers := congrArg Engine.subscribers h
  rw [Agree, hbare, hbare, halike, he, hf, hsame]

/-- What a change makes of an engine it makes of the bare engine too. -/
theorem lift {F : ∀ {σ : Type}, Engine σ → Engine σ}
    (hF : ∀ {σ : Type} (e : Engine σ), Agree (F e) (F e.bare)) (h : Agree e f) :
    Agree (F e) (F f) :=
  (hF e).trans ((congrArg (fun b : Engine Unit => (F b).bare) h).trans (hF f).symm)

theorem setLoop (h : Agree e f) (stage : Stage) (l : Loop) :
    Agree (e.setLoop stage l) (f.setLoop stage l) :=
  h.change (h.alike.setLoop stage l) rfl rfl

theorem submit (h : Agree e f) (d : Descriptor) : Agree (e.submit d).2 (f.submit d).2 := by
  refine h.change (h.alike.submit d) ?_ ?_
  all_goals rw [submit_eq]

/-! ## The worker -/

theorem serve (h : Agree e f) : Agree e.serve f.serve := by
  have hframe : ∀ {ρ : Type} (e : Engine ρ), e.serve.subscribers = e.subscribers := by
    intro ρ e
    unfold Engine.serve
    split
    · rw [handle_eq]
    · rfl
  exact h.change h.alike.serve (hframe e) (hframe f)

theorem stopWorker (h : Agree e f) : Agree e.stopWorker f.stopWorker := by
  refine h.change h.alike.stopWorker ?_ ?_
  all_goals rw [stopWorker_eq]

theorem shutdown (h : Agree e f) : Agree e.shutdown f.shutdown := by
  refine h.change h.alike.shutdown ?_ ?_
  all_goals rw [shutdown_eq]

/-! ## Promises and deliveries -/

theorem complete (h : Agree e f) (p : Promise) (m : Move) :
    (e.complete p m).1 = (f.complete p m).1 ∧ Agree (e.complete p m).2 (f.complete p m).2 := by
  obtain ⟨hanswer, hafter⟩ := h.alike.complete p m
  refine ⟨hanswer, h.change hafter ?_ ?_⟩
  all_goals rw [complete_eq]

theorem deliver (h : Agree e f) (i : Nat) (v : Verdict) :
    (e.deliver i v).1 = (f.deliver i v).1 ∧ Agree (e.deliver i v).2 (f.deliver i v).2 := by
  obtain ⟨hanswer, hafter⟩ := h.alike.deliver i v
  refine ⟨hanswer, h.change hafter ?_ ?_⟩
  all_goals rw [deliver_eq]

theorem promises (h : Agree e f) (stage : Stage) (l : List Nat) :
    (e.promises stage l).1 = (f.promises stage l).1 ∧
      Agree (e.promises stage l).2 (f.promises stage l).2 := by
  obtain ⟨hps, hafter⟩ := h.alike.promises stage l
  refine ⟨hps, h.change hafter ?_ ?_⟩
  all_goals rw [promises_eq]

/-! ## Handlers and readers -/

theorem handOne (h : Agree e f) (stage : Stage) (i : Nat) :
    Agree (e.handOne stage i) (f.handOne stage i) := by
  refine h.change (h.alike.handOne stage i) ?_ ?_
  all_goals rw [handOne_frame]

theorem handWindow (h : Agree e f) (stage : Stage) (members : List Nat) :
    Agree (e.handWindow stage members) (f.handWindow stage members) := by
  refine h.change (h.alike.handWindow stage members) ?_ ?_
  all_goals rw [handWindow_eq]; rfl

theorem endHandler (h : Agree e f) (i j : Nat) (ending ending' : Ending) :
    Agree (e.endHandler i ending) (f.endHandler j ending') := by
  refine h.change (h.alike.endHandler i j ending ending') ?_ ?_
  all_goals rw [endHandler_eq]

/-- Readers that have come equally far read the same. -/
theorem readBus (h : Agree e f) (i : Nat) : Agree (e.readBus i) (f.readBus i) := by
  refine lift (F := fun e => e.readBus i) (fun e => ?_) h
  have hs : e.bare.subscribers[i]? = e.subscribers[i]? := rfl
  have hc : e.bare.cancelled = e.cancelled := rfl
  have hr : ∀ position, e.bare.receive position = e.receive position := fun _ => rfl
  unfold Engine.readBus
  rw [hs]
  cases e.subscribers[i]? with
  | none => rfl
  | some s =>
    simp only [hc, hr]
    split
    · rfl
    · split
      · rfl
      · rfl
      · split <;> rfl

end Agree
end Engine
end RpcFlow
