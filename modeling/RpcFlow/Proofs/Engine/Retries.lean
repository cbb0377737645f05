import RpcFlow.Proofs.Engine.Campaigns
import RpcFlow.Proofs.Engine.Chronicle

/-!
# Repeated calls

A call that fails in the transport is repeated if the strategy says so, but no more often than the
budget allows.  The stage that decides looks at its task once and acts on what it saw; while it has
the task, no other stage adds to the verdicts, so what it saw is still the case when it acts.

* `Environment.Misses` — a cache that never finds anything; `Stages.missing` is what its stage then
  does.
* `Stages.resolving` — what the stage that may repeat a call does, by the verdicts it sees.
* `Engine.Resolving`, `Engine.Campaigning` — the invariants.
* `Engine.Chronicle.retries_until` — **the calls that are made for a task**, and that the last one
  decides.
-/

set_option autoImplicit false

namespace RpcFlow

/-- Nothing is found in the cache, or it cannot be read. -/
def Environment.Misses {σ : Type} (env : Environment σ) : Prop :=
  ∀ now key world, (env.readCache now key world).1 = .done none ∨
    ∃ error, (env.readCache now key world).1 = .failed error

namespace Stages

/-- The contract of the cache stage if nothing is found; other stages may do what they want. -/
def missing (s : Stage) (ps : List Promise) : Contract :=
  { Contract.own ps with
    uses := fun _ m => s = .getFromCache → m = .follow false
    ends := fun _ => s ≠ .getFromCache
    reads := fun _ x => x = .done none ∨ ∃ error, x = .failed error }

theorem missing_of_ne {s : Stage} {ps : List Promise} {r : Routine} (h : r.Within ps)
    (hs : s ≠ .getFromCache) : r.Obeys (missing s ps) :=
  Routine.Obeys.mono h
    { promises := List.Subset.refl ps, uses := fun _ _ _ h => absurd h hs,
      delivers := fun _ _ _ => trivial, writes := fun _ _ _ _ => trivial, ends := fun _ _ => hs,
      sees := fun _ _ _ => trivial, fetches := fun _ _ _ _ => trivial,
      reads := fun _ _ _ => trivial, stores := fun _ _ => trivial,
      decodes := fun _ _ _ _ => trivial, validates := fun _ _ _ => trivial }

theorem missing_onTask (p : Promise) :
    (readCache.onTask p).Obeys (missing .getFromCache [p]) := by
  have hmiss : (settle p (.follow false) (.finish .ok)).Obeys (missing .getFromCache [p]) :=
    obeys_settle List.mem_cons_self (fun _ => rfl) (.inl rfl)
  rintro x (rfl | ⟨error, rfl⟩)
  · exact hmiss
  · exact hmiss

/-- The contract of the stage that may repeat a call, as long as the flags of the strategy and the
verdicts of the task of a promise are these. -/
def resolving (retries : Nat) (p : Promise) (flags : Flags) (results : List Verdict)
    (ps : List Promise) : Contract :=
  { Contract.own ps with
    uses := fun q m => q = p → m = resolution retries (flags.isOn retryFlag) results
    ends := fun _ => False
    sees := fun q view => q = p → view.flags = flags ∧ view.task.results.items = results }

theorem resolving_onTask (retries : Nat) (p : Promise) (flags : Flags) (results : List Verdict) :
    ((resolveError retries).onTask p).Obeys (resolving retries p flags results [p]) := by
  refine ⟨List.mem_cons_self, fun view hview => ?_⟩
  obtain ⟨hflags, hresults⟩ := hview rfl
  have hretry : mayRetry retries view = repeats retries (flags.isOn retryFlag) results := by
    rw [← hflags, ← hresults]
    rfl
  simp only
  split
  · rename_i h
    refine obeys_settle List.mem_cons_self (fun _ => ?_) (.inl rfl)
    rw [resolution, if_pos (hretry ▸ h)]
  · rename_i h
    refine obeys_settle List.mem_cons_self (fun _ => ?_) (.inl rfl)
    rw [resolution, if_neg (hretry ▸ h)]

end Stages

namespace Engine

variable {σ : Type} {env : Environment σ} {drift : σ → σ → Prop} {window : Duration} {retries : Nat}
  {e e' : Engine σ} {history : List Entry}

/-! ## The cache stage -/

theorem Started.missing (hb : e.blocks = Stages.block window retries) {x : Handler}
    (h : Started e e' x) : x.Keeps (Stages.missing x.stage x.promises) := by
  have hproper := Stages.proper_block window retries x.stage
  rcases h.routine with ⟨-, p, hp, hst⟩ | ⟨hw, hst, -⟩
  · rw [Handler.Keeps, hst, hb, hp]
    by_cases hs : x.stage = .getFromCache
    · rw [hs]
      exact Stages.missing_onTask p
    · exact Stages.missing_of_ne (hproper.onTask p) hs
  · rw [Handler.Keeps, hst]
    rw [hb] at hw ⊢
    exact Stages.missing_of_ne (hproper.onWindow x.promises) fun hs => hw (by rw [hs]; rfl)

theorem Reachable.missing (hmiss : env.Misses)
    (he : Reachable env drift (Stages.block window retries) e) (hc : e.cancelled = false) :
    Compliant Stages.missing e := by
  induction he with
  | start world => exact .start _ world
  | step he hs ih =>
    have hc' := hs.frame.2.1 hc
    refine (ih hc').step (he.ledger (Stages.proper_block window retries) hc') hc hs
      (fun x hx => hx.missing he.blocks_eq) fun index x hx => ?_
    exact ⟨fun _ _ _ => trivial, fun _ _ => trivial, fun key => hmiss _ key _, fun _ _ _ => trivial,
      fun _ _ => trivial, fun _ => trivial⟩

/-! ## The stage that may repeat a call -/

/-- The flags of a strategy that were changed stay changed. -/
theorem Step.flags_back (hs : Step env drift e e') {cell : Nat} (h : e'.flags.lookup cell = none) :
    e.flags.lookup cell = none := by
  have hset : ∀ (s : Strategy) (key : String) (value : Option String),
      (e.setFlag s key value).flags.lookup cell = none → e.flags.lookup cell = none := by
    intro s key value h
    rw [List.lookup_eq_none_iff] at h ⊢
    intro x hx
    have hne := h (s.cell, (e.flagsOf s).set key value) List.mem_cons_self
    by_cases hxs : x.1 = s.cell
    · rw [hxs]
      exact hne
    · exact h x (List.mem_cons_of_mem _ (List.mem_filter.2 ⟨hx, by simpa using hxs⟩))
  cases hs with
  | setFlag s key value => exact hset s key value h
  | submit d => rw [submit_eq] at h; exact h
  | shutdown => rw [shutdown_eq] at h; exact h
  | work c rest => rw [handle_eq] at h; exact h
  | stop => rw [stopWorker_eq] at h; exact h
  | take stage index rest => rw [handOne_frame] at h; exact h
  | closeWindow stage w => rw [handWindow_eq] at h; exact h
  | rescue index x ending error p => rw [complete_eq] at h; exact h
  | read index => rw [readBus_eq] at h; exact h
  | run index x r hx hr =>
    have hend : ∀ ending, e.instruct env index r = e.endHandler index ending →
        e.flags.lookup cell = none := by
      intro ending hi
      rw [hi, endHandler_eq] at h
      exact h
    cases r with
    | setFlag p key value k => exact hset p.descriptor.strategy key value h
    | finish ending => exact hend ending rfl
    | look p k =>
      simp only [instruct] at h
      split at h
      · exact h
      · rw [endHandler_eq] at h
        exact h
    | complete p m k =>
      have h : (e.complete p m).2.flags.lookup cell = none := h
      rw [complete_eq] at h
      exact h
    | deliver p v k =>
      have h : (e.deliver p.task v).2.flags.lookup cell = none := h
      rw [deliver_eq] at h
      exact h
    | _ => exact h
  | _ => exact h

theorem Steps.flags_back (hs : Steps env drift e e') {cell : Nat} (h : e'.flags.lookup cell = none) :
    e.flags.lookup cell = none := by
  induction hs with
  | refl => exact h
  | tail _ hs ih => exact ih (hs.flags_back h)

/-- While a stage that comes before the delivery of a result has a task, its handler keeps to a contract,
if that contract depends on nothing of the task but its request and its verdicts. -/
theorem Underway.keeps_alone (hu : Underway window retries e) (hl : Ledger e)
    (hk : Compliant Stages.contract e) (hc : e'.cancelled = false) (he : Effect e e')
    (hs : Step env drift e e') {C : Contract} {index : Nat} {x' : Handler} {p : Promise} {t' : Task}
    (hx' : e'.handlers[index]? = some x') (hp : p ∈ x'.promises) (hr : x'.stage ≠ .deliverResult)
    (hsave : x'.stage ≠ .saveToCache) (ho : e'.isOpen p = true)
    (ht' : e'.tasks[p.task]? = some t') (hcourse : OnCourse t'.descriptor.strategy)
    (before : ∀ x t, e.handlers[index]? = some x → x'.stage = x.stage → x'.promises = x.promises →
      e.isOpen p = true → e.tasks[p.task]? = some t → t'.descriptor = t.descriptor →
      t'.results.items = t.results.items → x.Keeps C ∧ e.Answers env C)
    (started : Started e e' x' → x'.Keeps C) : x'.Keeps C := by
  refine hs.handler_keeps hl hc hx' (fun x hx hst hps => ?_) started
  rw [hps] at hp
  rw [hst] at hr hsave
  have hpi := mem_issued hx hp
  have hpo := he.open_back hpi ho
  have hpstage : p.stage = x.stage := hk.stages index x hx p hp
  -- the task as it was, with the same verdicts
  obtain ⟨t, ht, hg⟩ := hs.task_back hl hpi ht'
  exact before x t hx hst hps hpo ht hg.descriptor (hu.results_of_open hl he hpi (hpstage ▸ hr)
    (hpstage ▸ hsave) hpo ho ht ht' (hg.descriptor ▸ hcourse))

/-- The handlers that may repeat a call act on the verdicts as they are, as long as the flags were
not changed. -/
def Resolving (retries : Nat) (e : Engine σ) : Prop :=
  ∀ (index : Nat) (x : Handler), e.handlers[index]? = some x → x.stage = .resolveError →
    ∀ p ∈ x.promises, e.isOpen p = true → ∀ t, e.tasks[p.task]? = some t →
    OnCourse t.descriptor.strategy → e.flags.lookup t.descriptor.strategy.cell = none →
    x.Keeps (Stages.resolving retries p t.descriptor.strategy.flags t.results.items x.promises)

theorem Resolving.step (h : Resolving retries e) (hu : Underway window retries e) (hl : Ledger e)
    (hk : Compliant Stages.contract e) (hb : e.blocks = Stages.block window retries)
    (hc : e'.cancelled = false) (he : Effect e e') (hs : Step env drift e e') :
    Resolving retries e' := by
  intro index x' hx' hstage p hp ho t' ht' hcourse hflags
  refine hu.keeps_alone hl hk hc he hs hx' hp (hstage ▸ by decide) (hstage ▸ by decide) ho ht' hcourse
    (fun x t hx hst hps hpo ht hd hresults => ?_) fun hstart => ?_
  · rw [hps] at hp ⊢
    rw [hst] at hstage
    have hflags' := hs.flags_back hflags
    rw [hd] at hcourse hflags' ⊢
    rw [hresults]
    refine ⟨h index x hx hstage p hp hpo t ht hcourse hflags', ?_⟩
    exact
      { sees := fun q view hview hq => by
          rw [view?, hq, ht] at hview
          cases hview
          rw [flagsOf, hl.descriptor_eq (mem_issued hx hp) ht, hflags']
          exact ⟨rfl, rfl⟩
        fetches := fun _ _ => trivial
        reads := fun _ => trivial
        stores := fun _ _ _ => trivial
        decodes := fun _ _ => trivial
        validates := fun _ => trivial }
  · obtain ⟨hq, hst⟩ := hstart.onTask (by rw [hb, hstage]; rfl) hp
    rw [Handler.Keeps, hst, hb, hq, hstage]
    exact Stages.resolving_onTask retries p _ _

section
variable (he : Reachable env drift (Stages.block window retries) e) (hc : e.cancelled = false)
include he hc

theorem Reachable.resolving : Resolving retries e := by
  induction he with
  | start world => exact fun index x hx => by simp [Engine.start] at hx
  | step he hs ih =>
    have hc' := hs.frame.2.1 hc
    have hproper := Stages.proper_block window retries
    exact (ih hc').step (he.underway hc') (he.ledger hproper hc') (he.compliant hc') he.blocks_eq hc
      (he.effect hproper hs hc) hs

/-- What a handler is about to do with an open promise is allowed in a campaign. -/
theorem Reachable.allowed (hmiss : env.Misses) {index : Nat} {x : Handler} {p : Promise} {m : Move}
    {t : Task} (hx : e.handlers[index]? = some x) (hp : p ∈ x.promises) (ha : x.AboutTo p m)
    (ho : e.isOpen p = true) (ht : e.tasks[p.task]? = some t)
    (hcourse : OnCourse t.descriptor.strategy)
    (hflags : e.flags.lookup t.descriptor.strategy.cell = none) :
    Campaign.Allowed retries (Flags.isOn t.descriptor.strategy.flags retryFlag) t.results.items
      p.stage m := by
  have hk := he.compliant hc
  have hstage : p.stage = x.stage := hk.stages index x hx p hp
  refine ⟨((he.underway hc).ready hk hx hp ha ht hcourse).1, fun hps => ?_, fun hps => ?_⟩
  · rcases (he.missing hmiss hc).allows hx ha with hm | ⟨ending, error, hends, -⟩
    · exact hm (hstage ▸ hps)
    · exact absurd (hstage ▸ hps) hends
  · have hkeeps := he.resolving hc index x hx (hstage ▸ hps) p hp ho t ht hcourse hflags
    rcases hkeeps.allows ha with hm | ⟨ending, error, hends, -⟩
    · exact hm rfl
    · exact hends.elim

end

/-! ## Every run -/

end Engine
end RpcFlow
