import RpcFlow.Proofs.Engine.Distances
import RpcFlow.Proofs.Engine.Retries

/-!
# Tasks come nearer to their end

With the built-in blocks, no step takes a task further from its end, and every promise that is used brings
its task nearer, but for those of the network stage whose calls are put off.  The stage that may repeat a
call has to keep to the budget for that, whatever becomes of the flags of the strategy.

* `Stages.patient`, `Engine.Patient` — calls are repeated only within the budget.
* `Engine.distance` — how far a task is from its end.
* `Engine.Step.nearer` — **what a step does to that distance**.
-/

set_option autoImplicit false

namespace RpcFlow
namespace Stages

/-- The contract of the stage that may repeat a call, as long as the verdicts of the task of a promise are
these, whatever the flags. -/
def patient (retries : Nat) (p : Promise) (results : List Verdict) (ps : List Promise) : Contract :=
  { Contract.own ps with
    uses := fun q m => q = p → m = .goTo [.getFromNet] → repeats retries true results = true
    ends := fun _ => False
    sees := fun q view => q = p → view.task.results.items = results }

theorem patient_onTask (retries : Nat) (p : Promise) (results : List Verdict) :
    ((resolveError retries).onTask p).Obeys (patient retries p results [p]) := by
  refine ⟨List.mem_cons_self, fun view hview => ?_⟩
  simp only
  split
  · rename_i h
    refine obeys_settle List.mem_cons_self (fun _ _ => ?_) (.inl rfl)
    rw [mayRetry, Bool.and_assoc, Bool.and_eq_true] at h
    rw [← hview rfl, repeats, Bool.true_and]
    exact h.2
  · refine obeys_settle List.mem_cons_self (fun _ hm => ?_) (.inl rfl)
    exact absurd hm (by decide)

end Stages

namespace Engine

variable {σ : Type} {env : Environment σ} {drift : σ → σ → Prop} {window : Duration} {retries : Nat}
  {e e' : Engine σ}

/-! ## Calls are repeated within the budget -/

/-- The handlers that may repeat a call keep to the budget. -/
def Patient (retries : Nat) (e : Engine σ) : Prop :=
  ∀ (index : Nat) (x : Handler), e.handlers[index]? = some x → x.stage = .resolveError →
    ∀ p ∈ x.promises, e.isOpen p = true → ∀ t, e.tasks[p.task]? = some t →
    OnCourse t.descriptor.strategy → x.Keeps (Stages.patient retries p t.results.items x.promises)

theorem Patient.step (h : Patient retries e) (hu : Underway window retries e) (hl : Ledger e)
    (hk : Compliant Stages.contract e) (hb : e.blocks = Stages.block window retries)
    (hc : e'.cancelled = false) (he : Effect e e') (hs : Step env drift e e') : Patient retries e' := by
  intro index x' hx' hstage p hp ho t' ht' hcourse
  refine hu.keeps_alone hl hk hc he hs hx' hp (hstage ▸ by decide) (hstage ▸ by decide) ho ht' hcourse
    (fun x t hx hst hps hpo ht hd hresults => ?_) fun hstart => ?_
  · rw [hps] at hp ⊢
    rw [hresults]
    refine ⟨h index x hx (hst ▸ hstage) p hp hpo t ht (hd ▸ hcourse), ?_⟩
    exact
      { sees := fun q view hview hq => by
          rw [view?, hq, ht] at hview
          cases hview
          rfl
        fetches := fun _ _ => trivial
        reads := fun _ => trivial
        stores := fun _ _ _ => trivial
        decodes := fun _ _ => trivial
        validates := fun _ => trivial }
  · obtain ⟨hq, hst⟩ := hstart.onTask (by rw [hb, hstage]; rfl) hp
    rw [Handler.Keeps, hst, hb, hq, hstage]
    exact Stages.patient_onTask retries p _

theorem Reachable.patient (he : Reachable env drift (Stages.block window retries) e)
    (hc : e.cancelled = false) : Patient retries e := by
  induction he with
  | start world => exact fun index x hx => by simp [Engine.start] at hx
  | step he hs ih =>
    have hc' := hs.frame.2.1 hc
    have hproper := Stages.proper_block window retries
    exact (ih hc').step (he.underway hc') (he.ledger hproper hc') (he.compliant hc') he.blocks_eq hc
      (he.effect hproper hs hc) hs

/-! ## The distance of a task -/

/-- How far a task is from its end, if its strategy goes the way of a preset. -/
def distance (e : Engine σ) (preset : Preset) (retries i : Nat) : Nat :=
  (e.tasks[i]?.map fun t => preset.distances retries t.results.items (e.ahead i)).getD 0

theorem distance_of_some {preset : Preset} {i : Nat} {t : Task} (ht : e.tasks[i]? = some t) :
    e.distance preset retries i = preset.distances retries t.results.items (e.ahead i) := by
  rw [distance, ht]
  rfl

/-- The promises of a task that are used in a step put its call off. -/
def PutsOff (e e' : Engine σ) (i : Nat) : Prop :=
  ∀ p ∈ e.issued, p.task = i → e.isOpen p = true → e'.isOpen p = false →
    p.stage = .getFromNet ∧ ∃ (index : Nat) (x : Handler), e.handlers[index]? = some x ∧
      p ∈ x.promises ∧ x.AboutTo p (.goTo [.getFromNet])

/-- If no promise of a task is used, then no call is put off. -/
theorem PutsOff.of_isOpen {i : Nat}
    (h : ∀ p ∈ e.issued, p.task = i → e'.isOpen p = e.isOpen p) : PutsOff e e' i := by
  intro p hp hpi ho ho'
  rw [h p hp hpi, ho] at ho'
  exact Bool.noConfusion ho'

/-- **A step brings a task nearer to its end**, or leaves it where it is, putting its call off at most. -/
theorem Step.nearer (he : Reachable env drift (Stages.block window retries) e)
    (hs : Step env drift e e') (hc : e'.cancelled = false) {i : Nat} {t : Task}
    (ht : e.tasks[i]? = some t) {preset : Preset} (hf : preset.Follows t.descriptor.strategy) :
    e'.distance preset retries i < e.distance preset retries i ∨
      e'.distance preset retries i = e.distance preset retries i ∧ PutsOff e e' i := by
  have hc₀ := hs.frame.2.1 hc
  have hproper := Stages.proper_block window retries
  have hl := he.ledger hproper hc₀
  obtain ⟨t', ht', -⟩ := hs.grows i t ht
  rw [distance_of_some ht, distance_of_some ht']
  cases (he.effect hproper hs hc).fate hl ht' with
  | use index x p m t₀ hx hp ha ho hpi ht₀ hd hr hdel hissued hisOpen hperm =>
    subst hpi
    rw [ht] at ht₀
    cases ht₀
    have hpx := mem_issued hx hp
    rw [hl.verdict_eq hpx ht] at hr hperm
    rw [hr, Preset.distances_perm hperm]
    by_cases hoff : p.stage = .getFromNet ∧ m = .goTo [.getFromNet]
    · obtain ⟨hnet, rfl⟩ := hoff
      have hahead := mem_ahead hpx ho
      rw [hnet] at hahead ⊢
      refine .inr ⟨Phase.distances_eq hahead, fun q hq hqp hqo hqo' => ?_⟩
      -- it is this promise that is used
      have hqn : q.number = p.number := by
        by_contra hne
        rw [hisOpen, if_neg hne, hqo] at hqo'
        exact Bool.noConfusion hqo'
      rw [List.inj_on_of_nodup_map hl.nodup_numbers hq hpx hqn]
      exact ⟨hnet, index, x, hx, hp, ha⟩
    · have hcourse : OnCourse t.descriptor.strategy := ⟨_, _, hf.course⟩
      have hu := he.underway hc₀
      refine .inl (Phase.distances_lt hf (hu.phases p.task t _ _ ht hf.course) (mem_ahead hpx ho)
        (hu.ready (he.compliant hc₀) hx hp ha ht hcourse).1 (fun hstage hm => ?_)
        fun hnet hm => hoff ⟨hnet, hm⟩)
      have hxs : x.stage = .resolveError :=
        ((he.compliant hc₀).stages index x hx p hp).symm.trans hstage
      rcases (he.patient hc₀ index x hx hxs p hp ho t ht hcourse).allows ha with
        huse | ⟨ending, error, hends, -⟩
      · exact huse rfl hm
      · exact hends.elim
  | deliver index x p v k t₀ hx hr hp hpi ht₀ heq hisOpen hperm =>
    rw [ht] at ht₀
    cases ht₀
    have hresults : t'.results = t.results := by rw [heq, Task.deliver_frame]
    rw [hresults, Preset.distances_perm hperm]
    exact .inr ⟨rfl, .of_isOpen fun q _ _ => congrFun hisOpen q⟩
  | create d hnone =>
    rw [ht] at hnone
    cases hnone
  | keep t₀ ht₀ hat hopen hperm =>
    rw [ht] at ht₀
    cases ht₀
    rw [hat.results, Preset.distances_perm hperm]
    exact .inr ⟨rfl, .of_isOpen hopen⟩

end Engine
end RpcFlow
