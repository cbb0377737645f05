import RpcFlow.Proofs.Engine.Descent
import RpcFlow.Proofs.Engine.Windows

/-!
# Windows commit tasks

Calls may be put off again and again, by windows that overlap: a task that one window sends back is in the
next before the first has come to its end.  But a window that is sorted out has something to send, so that
its handler is bound to settle a task or to fail it.  Such a task is in no other window, and it stays
committed until it is nearer to its end.

* `Stages.exists_bound` — every window has a promise that will not be put off.
* `Engine.Committed` — a handler is bound to bring a task nearer to its end.
* `Engine.Committed.step` — **a commitment lasts** until it is met.
* `Engine.Started.commits` — **every window that is closed commits a task** that was not committed.
-/

set_option autoImplicit false

namespace RpcFlow

theorem Contract.responsive_own (ps : List Promise) : (Contract.own ps).Responsive where
  fetches _ _ := ⟨.failed (.io "reset"), trivial⟩
  reads _ := ⟨.done none, trivial⟩
  stores := ⟨.done (), trivial⟩
  decodes _ _ := ⟨.done .null, trivial⟩
  validates _ := ⟨.done (), trivial⟩

/-- A handler owes what follows from what it owes. -/
theorem Handler.Owes.mono {h : Handler} {C : Contract} {isOpen : Promise → Bool}
    {Q Q' : List Deed → Ending → Prop} (ho : h.Owes C isOpen Q)
    (hQ : ∀ deeds ending, Q deeds ending → Q' deeds ending) : h.Owes C isOpen Q' := by
  unfold Handler.Owes at ho ⊢
  split at ho
  · exact Routine.Ensures.mono ho hQ
  · exact hQ _ _ ho

namespace Stages

/-- If a promise is used, then with a result or a failure. -/
def Bound (p : Promise) (deeds : List Deed) : Prop := ∀ m done, .used p m done ∈ deeds → m.Settles

theorem Bound.of_append {p : Promise} {before deeds : List Deed} (h : Bound p (before ++ deeds)) :
    Bound p deeds :=
  fun m done hmem => h m done (List.mem_append_right _ hmem)

variable {C : Contract} {ps : List Promise}

/-- What is sent is not put off. -/
theorem Dispatches.bound {s : Batch.Sorting ps} {deeds : List Deed} {ending : Ending}
    (h : Dispatches C s deeds ending) (hn : (ps.map Promise.number).Nodup) {p : Promise}
    (hp : p ∈ s.sent) : Bound p deeds := by
  cases h with
  | nothing back message _ hnil => exact absurd hp (hnil ▸ List.not_mem_nil)
  | sent back transport call rest ending hback _ hc =>
    intro m done hmem
    rcases List.mem_append.1 hmem with hmem | hmem
    · -- it would be among those that go back
      have hdeferred : p ∈ s.deferred := by
        rw [← hback.promises.1]
        exact List.mem_filterMap.2 ⟨_, hmem, rfl⟩
      have hn' := (s.perm.map Promise.number).nodup_iff.2 hn
      rw [List.map_append] at hn'
      exact absurd rfl ((List.nodup_append.1 hn').2.2 _ (List.mem_map_of_mem hdeferred) _
        (List.mem_map_of_mem hp))
    · obtain ⟨qs, -, hqs⟩ := hc.settles
      exact hqs.of_mem ((List.mem_cons.1 hmem).resolve_left (by simp))

/-- **Every window has a promise that will not be put off.** -/
theorem exists_bound (window : Duration) (hne : ps ≠ [])
    (hsize : ∀ p ∈ ps, 1 ≤ p.descriptor.maxBatchSize) (hn : (ps.map Promise.number).Nodup) :
    ∃ p ∈ ps, ∀ (C : Contract) (isOpen : Promise → Bool),
      ((network window).onWindow ps).Ensures C isOpen fun deeds _ => Bound p deeds := by
  obtain ⟨s, hs⟩ := exists_sorting ps
  obtain ⟨p, hp⟩ := List.exists_mem_of_ne_nil _ (s.nonempty hne hsize)
  refine ⟨p, s.sent_sublist.subset hp, fun C isOpen => ?_⟩
  rw [show (network window).onWindow ps = dispatch s from hs]
  exact ensures_dispatch s fun deeds ending h => h.bound hn hp

end Stages

namespace Engine

variable {σ : Type} {env : Environment σ} {drift : σ → σ → Prop} {window : Duration} {retries : Nat}
  {e e' : Engine σ} {i : Nat}

/-- A handler is bound not to put off the call of a task. -/
def Committed (e : Engine σ) (i : Nat) : Prop :=
  ∃ (index : Nat) (x : Handler) (p : Promise), e.handlers[index]? = some x ∧ p ∈ x.promises ∧
    p.task = i ∧ e.isOpen p = true ∧
    x.Owes (.own x.promises) e.isOpen fun deeds _ => Stages.Bound p deeds

/-- A handler that is bound does not put off. -/
theorem not_aboutTo_of_bound {x : Handler} {p : Promise} {C : Contract} {isOpen : Promise → Bool}
    (hC : C.Responsive) (ho : x.Owes C isOpen fun deeds _ => Stages.Bound p deeds) :
    ¬x.AboutTo p (.goTo [.getFromNet]) := by
  generalize hm : Move.goTo [.getFromNet] = m
  intro ha
  cases ha with
  | rescue ending error => exact Move.noConfusion hm
  | complete m k hr =>
    subst hm
    rw [Handler.Owes, hr] at ho
    have hrest : (k (isOpen p)).Ensures C (closing isOpen p) fun deeds _ =>
        Stages.Bound p (.used p (.goTo [.getFromNet]) (isOpen p) :: deeds) := ho
    obtain ⟨deeds, ending, hbound⟩ := hrest.possible hC
    rcases hbound _ _ List.mem_cons_self with ⟨payload, raw, hsettles⟩ | ⟨error, hsettles⟩
    · exact Move.noConfusion hsettles
    · exact Move.noConfusion hsettles

section

variable (he : Reachable env drift (Stages.block window retries) e)
include he

/-- **A commitment lasts** as long as its task comes no nearer to its end. -/
theorem Committed.step (h : e.Committed i) (hs : Step env drift e e') (hc : e'.cancelled = false)
    (hoff : PutsOff e e' i) : e'.Committed i := by
  obtain ⟨index, x, p, hx, hp, hpi, ho, howes⟩ := h
  have hl := he.ledger (Stages.proper_block window retries) (hs.frame.2.1 hc)
  have hpx := mem_issued hx hp
  have ho' : e'.isOpen p = true := by
    by_contra hclosed
    obtain ⟨-, j, y, hy, hpy, ha⟩ := hoff p hpx hpi ho (by simpa using hclosed)
    obtain ⟨rfl, -⟩ := hl.unique hx hy hp hpy rfl
    rw [hx] at hy
    cases hy
    exact not_aboutTo_of_bound (Contract.responsive_own _) howes ha
  rcases hs.handler_forth hl hc hx with ⟨x', hx', hk⟩ | ⟨r, hr, rfl⟩
  · refine ⟨index, x', p, hx', hk.promises ▸ hp, hpi, ho', ?_⟩
    rw [hk.promises]
    exact hk.owes (hl.within index x hx) howes
  · rw [Handler.Owes, hr] at howes
    have hown : e.Answers env (.own x.promises) := .own
    obtain ⟨state, hx', howes'⟩ := owes_instruct hx howes hown
    exact ⟨index, x.at state, p, hx', hp, hpi, ho', howes'.mono fun _ _ => Stages.Bound.of_append⟩

/-- A task in a window is not committed. -/
theorem Reachable.not_committed_of_gathered (hc : e.cancelled = false) {t : Task}
    (ht : e.tasks[i]? = some t) (hcourse : OnCourse t.descriptor.strategy)
    (hi : i ∈ (e.loop .getFromNet).members) : ¬e.Committed i := by
  rintro ⟨index, x, p, hx, hp, rfl, ho, -⟩
  obtain ⟨visits, late, hcourse⟩ := hcourse
  have hgathered : Stage.getFromNet ∈ e.gathered p.task := by
    rw [← List.count_pos_iff, gathered, count_flatMap_replicate]
    exact List.count_pos_iff.2 hi
  have hpending := mem_pending (mem_issued hx hp) rfl ho
  -- one stage lies ahead of a task that goes to the network
  have hone := ((he.underway hc).phases p.task t visits late ht hcourse).length_eq_one (q := .getFromNet)
    (List.mem_append_left _ (List.mem_append_left _ (List.mem_append_right _ hgathered)))
    (by decide) (by decide)
  have hg := List.length_pos_of_mem hgathered
  have hp := List.length_pos_of_mem hpending
  simp only [ahead, List.length_append] at hone
  omega

/-- **Every window that is closed commits a task** that was not committed. -/
theorem Started.commits {index : Nat} {x : Handler} (hst : Started e e' x) (hs : Step env drift e e')
    (hc : e'.cancelled = false) (hx : e'.handlers[index]? = some x) (hnet : x.stage = .getFromNet)
    (hsize : ∀ (i : Nat) (t : Task), e.tasks[i]? = some t → 1 ≤ t.descriptor.maxBatchSize)
    (hcourse : ∀ (i : Nat) (t : Task), e.tasks[i]? = some t → OnCourse t.descriptor.strategy) :
    ∃ i, ¬e.Committed i ∧ e'.Committed i := by
  have hc₀ := hs.frame.2.1 hc
  have hl' := (he.step hs).ledger (Stages.proper_block window retries) hc
  have hnetwork : Stages.block window retries x.stage = Stages.network window := by
    rw [hnet]
    rfl
  obtain ⟨hne, hopen, hrun⟩ := hst.onWindow he hnetwork
  have hpromise : ∀ p ∈ x.promises, ∃ t, e.tasks[p.task]? = some t ∧ p.descriptor = t.descriptor := by
    intro p hp
    obtain ⟨-, -, t, ht, -, hd⟩ := hst.promises p hp
    exact ⟨t, ht, hd⟩
  obtain ⟨p, hp, hbound⟩ := Stages.exists_bound window hne (fun p hp => by
    obtain ⟨t, ht, hd⟩ := hpromise p hp
    exact hd ▸ hsize p.task t ht) (hl'.nodup_promises hx)
  refine ⟨p.task, ?_, index, x, p, hx, hp, rfl, hopen p hp, ?_⟩
  · obtain ⟨t, ht, -⟩ := hpromise p hp
    refine he.not_committed_of_gathered hc₀ ht (hcourse p.task t ht) ?_
    rcases hst.routine with ⟨hnone, -⟩ | ⟨-, -, w, hw, htasks⟩
    · rw [he.blocks_eq, hnet] at hnone
      cases hnone
    · rw [hnet] at hw
      rw [Loop.members, hw, Option.map_some, Option.getD_some, ← htasks]
      exact List.mem_map_of_mem hp
  · rw [Handler.Owes, hrun]
    exact hbound _ _

end

end Engine
end RpcFlow
