import Mathlib.Data.List.Perm.Basic
import RpcFlow.Proofs.Engine.Sharing

/-!
# Requests and the tasks they lead to

A request is made from outside, waits for the worker and joins a task or becomes one.  Nothing else
makes a task, so what tasks and waiting requests there are can be traced back to the requests that were
made, each of them once.

* `Engine.Runs` — the runs of an engine, with the requests made so far, in order.
* `Engine.requests` — the requests that wait or have become tasks; `Engine.Runs.requests` says where
  they come from.
* `Engine.Runs.answered` — what has become of each request.
-/

set_option autoImplicit false

namespace RpcFlow

/-- The descriptor of a request that waits for the worker. -/
def Command.request? : Command → Option Descriptor
  | submit d _ => some d
  | transition .. => none

namespace Engine

variable {σ : Type} {env : Environment σ} {drift : σ → σ → Prop} {blocks : Stage → Block} {world : σ}
  {e e' : Engine σ} {ds : List Descriptor}

/-- The requests that have become tasks, and those that still wait. -/
def requests (e : Engine σ) : List Descriptor :=
  e.tasks.toList.map Task.descriptor ++ e.inbox.filterMap Command.request?

/-- Tasks may grow, and requests may be dropped. -/
theorem requests_of_grows (hg : Grows e e') (hsize : e'.tasks.size = e.tasks.size)
    (hinbox : (e'.inbox.filterMap Command.request?).Sublist
      (e.inbox.filterMap Command.request?)) : e'.requests.Subperm e.requests := by
  have htasks : e'.tasks.toList.map Task.descriptor = e.tasks.toList.map Task.descriptor := by
    refine List.ext_getElem? fun i => ?_
    rw [List.getElem?_map, List.getElem?_map, Array.getElem?_toList, Array.getElem?_toList]
    cases ht' : e'.tasks[i]? with
    | none =>
      rw [Array.getElem?_eq_none_iff, hsize, ← Array.getElem?_eq_none_iff] at ht'
      rw [ht']
    | some t' =>
      obtain ⟨t, ht, hgt⟩ := hg.back hsize ht'
      rw [ht, Option.map_some, Option.map_some, hgt.descriptor]
  rw [requests, requests, htasks]
  exact (hinbox.append_left _).subperm

/-- A request that is worked off joins a task or becomes one. -/
theorem requests_work {d : Descriptor} {r : Nat} {rest : List Command}
    (hi : e.inbox = .submit d r :: rest) :
    (({ e with inbox := rest } : Engine σ).handle (.submit d r)).requests.Subperm e.requests := by
  have hrest : e.inbox.filterMap Command.request? = d :: rest.filterMap Command.request? := by
    rw [hi]
    rfl
  rw [requests, requests, hrest]
  simp only [handle]
  rcases accept_cases { e with inbox := rest } d with ⟨i, t, -, -, ha⟩ | ⟨-, ha⟩
  · rw [ha]
    exact ((List.sublist_cons_self d _).append_left _).subperm
  · have htasks := tasks_create ({ e with inbox := rest } : Engine σ) d
    have hinbox : (({ e with inbox := rest } : Engine σ).create d).2.inbox = rest := by
      rw [create_eq]
    rw [ha]
    simp only [htasks, hinbox, Array.toList_push, List.map_append, List.append_assoc]
    exact List.Subperm.refl _

/-- **No step makes a request**, unless it is made from outside. -/
theorem Step.requests (hs : Step env drift e e') (hc : e'.cancelled = false)
    (hsize : e'.replies.size = e.replies.size) : e'.requests.Subperm e.requests := by
  have hg := hs.grows
  cases hs with
  | submit d =>
    rw [submit_eq, Array.size_push] at hsize
    exact absurd hsize (Nat.succ_ne_self _)
  | shutdown => rw [shutdown_eq] at hc; exact Bool.noConfusion hc
  | work c rest hc' hs' hi =>
    cases c with
    | submit d r => exact requests_work hi
    | transition i source verdict =>
      refine requests_of_grows hg (size_place _ i (some source) verdict.next) ?_
      rw [handle, place_eq, hi, List.filterMap_cons_none rfl]
  | stop hc' => rw [stopWorker_eq] at hc; rw [hc'] at hc; exact Bool.noConfusion hc
  | take stage index rest => rw [handOne_frame]; exact List.Subperm.refl _
  | closeWindow stage w => rw [handWindow_eq]; exact List.Subperm.refl _
  | run index x r =>
    obtain ⟨htasks, hinbox⟩ := requests_instruct (f := Command.request?) (fun _ _ _ => rfl) env index e r
    exact requests_of_grows hg htasks (by rw [hinbox])
  | rescue index x ending error p =>
    refine requests_of_grows hg (size_complete e p _) ?_
    rw [filterMap_inbox_complete fun _ _ _ => rfl]
  | read index => rw [readBus_eq]; exact List.Subperm.refl _
  | _ => exact List.Subperm.refl _

/-- No step takes an answer's slot away. -/
theorem Step.size_replies_le (hs : Step env drift e e') : e.replies.size ≤ e'.replies.size := by
  cases hs with
  | submit d => rw [submit_eq, Array.size_push]; exact Nat.le_succ _
  | shutdown => exact Nat.le_of_eq (by rw [shutdown_eq])
  | work c rest =>
    cases c with
    | submit d r =>
      simp only [handle]
      exact Nat.le_of_eq (by rw [Array.size_setIfInBounds, accept_eq])
    | transition i source verdict =>
      simp only [handle]
      exact Nat.le_of_eq (by rw [place_eq])
  | stop => exact Nat.le_of_eq (size_replies_stopWorker e).symm
  | take stage index rest => rw [handOne_frame]; exact Nat.le_refl _
  | closeWindow stage w => rw [handWindow_eq]; exact Nat.le_refl _
  | run index x r => exact Nat.le_of_eq (by rw [instruct_eq])
  | rescue index x ending error p => exact Nat.le_of_eq (by rw [complete_eq])
  | read index => exact Nat.le_of_eq (by rw [readBus_eq])
  | _ => exact Nat.le_refl _

theorem Steps.size_replies_le (hs : Steps env drift e e') : e.replies.size ≤ e'.replies.size := by
  induction hs with
  | refl => exact Nat.le_refl _
  | tail _ h ih => exact Nat.le_trans ih h.size_replies_le

/-! ## Runs -/

/-- The runs of an engine from a state of the outside world, and the requests made so far. -/
inductive Runs (env : Environment σ) (drift : σ → σ → Prop) (blocks : Stage → Block) (world : σ) :
    List Descriptor → Engine σ → Prop
  | start : Runs env drift blocks world [] (Engine.start blocks world)
  | request {ds : List Descriptor} {e : Engine σ} (d : Descriptor) : Runs env drift blocks world ds e →
    Runs env drift blocks world (ds ++ [d]) (e.submit d).2
  | step {ds : List Descriptor} {e e' : Engine σ} : Runs env drift blocks world ds e →
    Step env drift e e' → e'.replies.size = e.replies.size → Runs env drift blocks world ds e'

namespace Runs

theorem reachable (h : Runs env drift blocks world ds e) : Reachable env drift blocks e := by
  induction h with
  | start => exact .start world
  | request d _ ih => exact ih.step (.submit _ d)
  | step _ hs _ ih => exact ih.step hs

/-- Each request has a slot for its answer. -/
theorem size_replies (h : Runs env drift blocks world ds e) : e.replies.size = ds.length := by
  induction h with
  | start => rfl
  | request d _ ih => rw [submit_eq, Array.size_push, ih, List.length_append]; rfl
  | step _ _ hsize ih => rw [hsize, ih]

/-- Several requests are made one after the other. -/
theorem requestAll (h : Runs env drift blocks world ds e) (l : List Descriptor) :
    Runs env drift blocks world (ds ++ l) (l.foldl (fun e d => (e.submit d).2) e) := by
  induction l generalizing ds e with
  | nil => rw [List.append_nil]; exact h
  | cons d l ih =>
    rw [List.append_cons, List.foldl_cons]
    exact ih (h.request d)

/-- As long as no request is made, a run goes on. -/
theorem steps (h : Runs env drift blocks world ds e) (hs : Steps env drift e e')
    (hsize : e'.replies.size = e.replies.size) : Runs env drift blocks world ds e' := by
  induction hs with
  | refl => exact h
  | tail hs hstep ih =>
    have hle := Steps.size_replies_le hs
    have hle' := hstep.size_replies_le
    exact .step (ih (by omega)) hstep (by omega)

/-- **Each request waits for the worker or was given a task that suits it.** -/
theorem answered (h : Runs env drift blocks world ds e) (hc : e.cancelled = false) {k : Nat}
    {d : Descriptor} (hk : ds[k]? = some d) : e.Answered d k := by
  induction h with
  | start => exact absurd hk (by simp)
  | @request ds e d' hr ih =>
    have hc' : e.cancelled = false := by rw [submit_eq] at hc; exact hc
    have hrun := hr.reachable.running hc'
    by_cases hlt : k < ds.length
    · rw [List.getElem?_append_left hlt] at hk
      have hs : Step env drift e (e.submit d').2 := .submit e d'
      exact (ih hc' hk).step hr.reachable.desk hrun hc hs
    · obtain ⟨hle, -⟩ := List.getElem?_eq_some_iff.1 hk
      rw [List.length_append, List.length_singleton] at hle
      have hkl : k = ds.length := by omega
      rw [hkl, List.getElem?_concat_length] at hk
      cases hk
      rw [hkl, ← hr.size_replies]
      exact Answered.submit hrun d
  | step hr hs hsize ih =>
    have hc' := hs.frame.2.1 hc
    exact (ih hc' hk).step hr.reachable.desk (hr.reachable.running hc') hc hs

/-- A request that was given a task was given one that suits it. -/
theorem suits (h : Runs env drift blocks world ds e) (hc : e.cancelled = false) {k i : Nat}
    {d : Descriptor} (hk : ds[k]? = some d) (hr : e.replies[k]? = some (.task i)) :
    ∃ t, e.tasks[i]? = some t ∧ Suits t d := by
  rcases h.answered hc hk with ⟨hwait, -⟩ | ⟨j, t, hj, ht, hsuits⟩
  · rw [hr] at hwait
    cases hwait
  · rw [hr] at hj
    cases hj
    exact ⟨t, ht, hsuits⟩

/-- As long as it is under way, the task of a request that may be shared serves that request. -/
theorem serves (h : Runs env drift blocks world ds e) (hc : e.cancelled = false) {k i : Nat}
    {d : Descriptor} {t : Task} (hk : ds[k]? = some d) (hr : e.replies[k]? = some (.task i))
    (ht : e.tasks[i]? = some t) (hf : t.isFinished = false) (hb : d.bindable = true) :
    t.Serves d.method d.cacheKey := by
  obtain ⟨t', ht', hsuits⟩ := h.suits hc hk hr
  rw [ht] at ht'
  cases ht'
  exact { method := hsuits.method, cacheKey := hsuits.cacheKey, bindable := hsuits.shared hb,
          unfinished := hf }

/-- **Tasks and waiting requests come from requests that were made.** -/
theorem requests (h : Runs env drift blocks world ds e) (hc : e.cancelled = false) :
    e.requests.Subperm ds := by
  induction h with
  | start => exact List.nil_subperm
  | @request ds e d hr ih =>
    have hc' : e.cancelled = false := by rw [submit_eq] at hc; exact hc
    have hmade : (e.submit d).2.requests = e.requests ++ [d] := by
      rw [submit_eq, hr.reachable.running hc', if_neg Bool.false_ne_true]
      simp only [Engine.requests, List.filterMap_append, List.append_assoc]
      rfl
    rw [hmade]
    exact (List.subperm_append_right [d]).2 (ih hc')
  | step hr hs hsize ih => exact (hs.requests hc hsize).trans (ih (hs.frame.2.1 hc))

end Runs
end Engine
end RpcFlow
