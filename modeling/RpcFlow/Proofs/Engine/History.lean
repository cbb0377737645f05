import RpcFlow.Proofs.Engine.Accounting

/-!
# What an engine does not take back

A step may add to a task, but nothing that a task once was is undone: it keeps its descriptor, its
logs only get longer, and a task that has finished stays finished.

* `Task.Grows` — one state of a task comes before another.
* `Engine.Step.grows`, `Engine.Steps.grows` — every task of an engine grows, whatever happens.
-/

set_option autoImplicit false

namespace RpcFlow

/-- The second is a later state of the first. -/
structure Task.Grows (t t' : Task) : Prop where
  id : t'.id = t.id
  started : t'.started = t.started
  descriptor : t'.descriptor = t.descriptor
  results : t.results.items <+: t'.results.items
  delivered : t.delivered.items <+: t'.delivered.items
  closed : t.delivered.completed = true → t'.delivered = t.delivered
  finished : t.isFinished = true → t'.isFinished = true

namespace Task.Grows

variable {t t' t'' : Task}

theorem refl (t : Task) : t.Grows t :=
  ⟨rfl, rfl, rfl, List.prefix_rfl, List.prefix_rfl, fun _ => rfl, fun h => h⟩

theorem trans (h : t.Grows t') (h' : t'.Grows t'') : t.Grows t'' where
  id := h'.id.trans h.id
  started := h'.started.trans h.started
  descriptor := h'.descriptor.trans h.descriptor
  results := h.results.trans h'.results
  delivered := h.delivered.trans h'.delivered
  closed hc := (h'.closed (h.closed hc ▸ hc)).trans (h.closed hc)
  finished hf := h'.finished (h.finished hf)

theorem record (t : Task) (v : Verdict) : t.Grows (t.record v) := by
  unfold Task.record ReplayLog.push
  split
  · exact refl t
  · exact ⟨rfl, rfl, rfl, List.prefix_append _ _, List.prefix_rfl, fun _ => rfl, fun h => h⟩

theorem deliver (t : Task) (v : Verdict) : t.Grows (t.deliver v).1 := by
  rw [Task.deliver_eq]
  split
  · exact refl t
  · rename_i ho
    refine ⟨rfl, rfl, rfl, List.prefix_rfl, List.prefix_append _ _, fun hc => ?_, fun h => h⟩
    rw [hc, Bool.true_or] at ho
    exact absurd rfl ho

theorem close (t : Task) : t.Grows t.close :=
  ⟨rfl, rfl, rfl, List.prefix_rfl, List.prefix_rfl, ReplayLog.complete_of_completed, fun h => h⟩

theorem moved (t : Task) (source : Option Stage) (next : List Stage) :
    t.Grows (t.moved source next) := by
  obtain ⟨hid, hs, hd, hr, hdel⟩ := t.moved_frame source next
  refine ⟨hid, hs, hd, hr ▸ List.prefix_rfl, hdel ▸ List.prefix_rfl, fun hc => ?_, fun hf => ?_⟩
  all_goals unfold Task.moved
  all_goals split
  · exact ReplayLog.complete_of_completed hc
  · rfl
  · rfl
  · exact hf

end Task.Grows

namespace Engine

variable {σ : Type} {env : Environment σ} {drift : σ → σ → Prop} {e e' : Engine σ}

/-- Each task of the first engine is found in the second, in a later state. -/
def Grows (e e' : Engine σ) : Prop :=
  ∀ (i : Nat) (t : Task), e.tasks[i]? = some t → ∃ t', e'.tasks[i]? = some t' ∧ t.Grows t'

namespace Grows

variable {e'' : Engine σ}

theorem of_eq (h : e'.tasks = e.tasks) : Grows e e' :=
  fun _ t ht => ⟨t, h ▸ ht, .refl t⟩

theorem trans (h : Grows e e') (h' : Grows e' e'') : Grows e e'' := by
  intro i t ht
  obtain ⟨t', ht', hg⟩ := h i t ht
  obtain ⟨t'', ht'', hg'⟩ := h' i t' ht'
  exact ⟨t'', ht'', hg.trans hg'⟩

/-- If there are no new tasks, then every task of the second engine was there before. -/
theorem back (h : Grows e e') (hsize : e'.tasks.size = e.tasks.size) {i : Nat} {t' : Task}
    (ht' : e'.tasks[i]? = some t') : ∃ t, e.tasks[i]? = some t ∧ t.Grows t' := by
  have hi : i < e.tasks.size := hsize ▸ (Array.getElem?_eq_some_iff.1 ht').1
  obtain ⟨t'', ht'', hg⟩ := h i _ (Array.getElem?_eq_getElem hi)
  rw [ht'] at ht''
  cases ht''
  exact ⟨_, Array.getElem?_eq_getElem hi, hg⟩

theorem updateTask (e : Engine σ) (i : Nat) {f : Task → Task} (hf : ∀ t : Task, t.Grows (f t)) :
    Grows e (e.updateTask i f) := by
  intro j t ht
  rw [tasks_updateTask, ht]
  split
  · exact ⟨f t, rfl, hf t⟩
  · exact ⟨t, rfl, .refl t⟩

theorem complete (e : Engine σ) (p : Promise) (m : Move) : Grows e (e.complete p m).2 := by
  by_cases ho : e.isOpen p = true
  · rw [complete_of_isOpen ho]
    exact Grows.updateTask e p.task fun t => .record t (p.verdict m)
  · rw [complete_of_used (by simpa using ho)]
    exact .of_eq rfl

theorem deliver (e : Engine σ) (i : Nat) (v : Verdict) : Grows e (e.deliver i v).2 := by
  intro j t ht
  rw [tasks_deliver, ht]
  split
  · exact ⟨_, rfl, .deliver t v⟩
  · exact ⟨t, rfl, .refl t⟩

theorem place (e : Engine σ) (i : Nat) (source : Option Stage) (next : List Stage) :
    Grows e (e.place i source next) := by
  intro j t ht
  cases hi : e.tasks[i]? with
  | none =>
    simp only [Engine.place, Engine.placeUnder, hi]
    exact ⟨t, ht, .refl t⟩
  | some u =>
    rw [tasks_place source next hi]
    split
    · rename_i hij
      rw [hij, ht] at hi
      cases hi
      exact ⟨_, rfl, .moved t source next⟩
    · exact ⟨t, ht, .refl t⟩

theorem create (e : Engine σ) (d : Descriptor) : Grows e (e.create d).2 := by
  intro i t ht
  exact ⟨t, getElem?_create_of_some ht d, .refl t⟩

theorem foldl_close (e : Engine σ) (l : List Nat) :
    Grows e (l.foldl (fun e i => e.updateTask i Task.close) e) := by
  induction l generalizing e with
  | nil => exact .of_eq rfl
  | cons i l ih => exact (Grows.updateTask e i .close).trans (ih _)

theorem instruct (e : Engine σ) (env : Environment σ) (index : Nat) (r : Routine) :
    Grows e (e.instruct env index r) := by
  cases r with
  | finish ending =>
    simp only [Engine.instruct]
    rw [endHandler_eq]
    exact .of_eq rfl
  | look p k =>
    simp only [Engine.instruct]
    split
    · exact .of_eq rfl
    · rw [endHandler_eq]
      exact .of_eq rfl
  | complete p m k => exact Grows.complete e p m
  | deliver p v k => exact Grows.deliver e p.task v
  | _ => exact .of_eq rfl

end Grows

/-- **Nothing that a task was is undone by a step.** -/
theorem Step.grows (hs : Step env drift e e') : Grows e e' := by
  cases hs with
  | submit d => rw [submit_eq]; exact .of_eq rfl
  | shutdown => rw [shutdown_eq]; exact .of_eq rfl
  | work c rest =>
    cases c with
    | submit d reply =>
      simp only [handle]
      rcases accept_cases { e with inbox := rest } d with ⟨i, t, -, -, h⟩ | ⟨-, h⟩
      · rw [h]; exact .of_eq rfl
      · rw [h]; exact Grows.create { e with inbox := rest } d
    | transition i source verdict => exact Grows.place { e with inbox := rest } i (some source) _
  | stop =>
    have h := tasks_stopWorker e
    rw [stopWorker_eq]
    exact (Grows.foldl_close e e.registry).trans (.of_eq h)
  | take stage index rest => rw [handOne_frame]; exact .of_eq rfl
  | closeWindow stage w => rw [handWindow_eq]; exact .of_eq rfl
  | run index h r => exact Grows.instruct e env index r
  | rescue index h ending error p => exact Grows.complete e p _
  | read index => rw [readBus_eq]; exact .of_eq rfl
  | _ => exact .of_eq rfl

theorem Steps.grows (hs : Steps env drift e e') : Grows e e' := by
  induction hs with
  | refl => exact .of_eq rfl
  | tail _ h ih => exact ih.trans h.grows

end Engine
end RpcFlow
