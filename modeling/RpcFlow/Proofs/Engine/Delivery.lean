import RpcFlow.Proofs.Engine.Effects
import RpcFlow.Proofs.Engine.Phases
import RpcFlow.Proofs.Engine.Turns

/-!
# One delivery for every task

Under a strategy with a course a task comes to its end through a delivery, and only one: whatever the
outside world answers, however often calls are put off or repeated, and whatever crashes.

* `Errand` — how far a handler of a stage that delivers has come with its promise.
* `Engine.Underway`, `Engine.Reachable.underway` — the invariant: every task is in a phase of its course,
  and every such handler on its errand.
* `Engine.StageMove`, `Engine.Reachable.stageMove` — how the promises of a run are used.

What a task has come to in the end is in `RpcFlow.Proofs.Engine.Outcomes`.
-/

set_option autoImplicit false

namespace RpcFlow

/-- The stages that deliver. -/
def Stage.Delivers (s : Stage) : Prop := s = .deliverResult ∨ s = .deliverError

/-- What a handler of a stage that delivers is about to do with a promise, and whether the promise is
open. -/
inductive Errand (window : Duration) (retries : Nat) (p : Promise) (results delivered : List Verdict) :
    Bool → HandlerState → Prop
  | begins : Errand window retries p results delivered true
      (.running ((Stages.block window retries p.stage).onTask p))
  | carries (v : Verdict) : Phase.Picked p.stage results v →
    Errand window retries p results delivered true
      (.running (.deliver p v fun _ => Stages.settle p (.follow true) (.finish .ok)))
  | delivered : delivered ≠ [] → Errand window retries p results delivered true
      (.running (Stages.settle p (.follow true) (.finish .ok)))
  | done (b : Bool) : Errand window retries p results delivered b (.running (.finish .ok))
  | ended (b : Bool) : Errand window retries p results delivered b (.ended .ok)

namespace Errand

variable {window : Duration} {retries : Nat} {p : Promise} {results delivered : List Verdict}
  {b : Bool} {state : HandlerState}

/-- A handler of a stage that delivers begins with a look at its task. -/
theorem onTask_eq (window : Duration) (retries : Nat) (hs : p.stage.Delivers) :
    ∃ k, (Stages.block window retries p.stage).onTask p = .look p k := by
  rcases hs with hs | hs <;> rw [hs] <;> exact ⟨_, rfl⟩

/-- What a handler that uses a promise has done before. -/
theorem of_complete {q : Promise} {m : Move} {k : Bool → Routine} (hs : p.stage.Delivers)
    (h : Errand window retries p results delivered b (.running (.complete q m k))) :
    delivered ≠ [] ∧ k = fun _ => .finish .ok := by
  obtain ⟨k', hk'⟩ := onTask_eq window retries hs
  generalize hst : HandlerState.running (.complete q m k) = state at h
  cases h with
  | begins => rw [hk'] at hst; cases hst
  | delivered hd => cases hst; exact ⟨hd, rfl⟩
  | _ => cases hst

/-- What a handler that delivers has found. -/
theorem of_deliver {q : Promise} {v : Verdict} {k : Bool → Routine} (hs : p.stage.Delivers)
    (h : Errand window retries p results delivered b (.running (.deliver q v k))) :
    Phase.Picked p.stage results v ∧ b = true ∧
      k = fun _ => Stages.settle p (.follow true) (.finish .ok) := by
  obtain ⟨k', hk'⟩ := onTask_eq window retries hs
  generalize hst : HandlerState.running (.deliver q v k) = state at h
  cases h with
  | begins => rw [hk'] at hst; cases hst
  | carries v' hv => cases hst; exact ⟨hv, rfl, rfl⟩
  | _ => cases hst

theorem of_ended {ending : Ending}
    (h : Errand window retries p results delivered b (.ended ending)) : ending = .ok := by
  cases h; rfl

/-- A handler that is left alone stays on its errand, if what it has found stays what it is. -/
theorem later {results' delivered' : List Verdict} {b' : Bool}
    (h : Errand window retries p results delivered b state)
    (open_ : (∃ r, state = .running r) → b' = b) (hr : results <+: results')
    (hd : delivered <+: delivered')
    (hl : (∃ r, state = .running r) → p.stage = .deliverError → b = true →
      lastFailureOf results' = lastFailureOf results) :
    Errand window retries p results' delivered' b' state := by
  cases h with
  | begins => rw [open_ ⟨_, rfl⟩]; exact .begins
  | carries v hv =>
    rw [open_ ⟨_, rfl⟩]
    refine .carries v ?_
    rcases hv with ⟨hs, hmem, hvs⟩ | ⟨hs, hlast⟩
    · exact .inl ⟨hs, hr.subset hmem, hvs⟩
    · exact .inr ⟨hs, (hl ⟨_, rfl⟩ hs rfl).trans hlast⟩
  | delivered hne =>
    rw [open_ ⟨_, rfl⟩]
    exact .delivered fun he => hne (List.prefix_nil.1 (he ▸ hd))
  | done b => exact .done b'
  | ended b => exact .ended b'

end Errand

/-- A task that has not finished takes the first verdict. -/
theorem Task.items_deliver {t : Task} (h : t.delivered.completed = false) (v : Verdict) :
    (t.deliver v).1.delivered.items =
      if t.delivered.items = [] then [v] else t.delivered.items := by
  rw [Task.deliver_eq, h]
  cases hi : t.delivered.items with
  | nil => simp [ReplayLog.isEmpty, hi]
  | cons w l => simp [ReplayLog.isEmpty, hi]

namespace Engine

variable {σ : Type} {env : Environment σ} {drift : σ → σ → Prop} {window : Duration} {retries : Nat}
  {e e' : Engine σ}

section
variable (window : Duration) (retries : Nat) {p : Promise} {t : Task}
  (ht : e.tasks[p.task]? = some t) (env : Environment σ) (index : Nat)
include ht

/-- What becomes of a handler that is to deliver a result. -/
theorem instruct_deliverResult :
    e.instruct env index ((Stages.block window retries .deliverResult).onTask p) =
      e.resume index (match t.lastSuccess? with
        | none => .finish (.failed (.interrupted "no successful result to deliver"))
        | some v => .deliver p v fun _ => Stages.settle p (.follow true) (.finish .ok)) := by
  have hview : e.view? p = some ⟨t, e.flagsOf p.descriptor.strategy, !e.isOpen p⟩ := by
    rw [view?, ht]
    rfl
  cases hl : t.lastSuccess? <;>
    simp only [Stages.block, Stages.deliverResult, Block.immediate, instruct, hview, hl]

/-- What becomes of a handler that is to deliver a failure. -/
theorem instruct_deliverError :
    e.instruct env index ((Stages.block window retries .deliverError).onTask p) =
      e.resume index (.deliver p (Stages.failureOf t)
        fun _ => Stages.settle p (.follow true) (.finish .ok)) := by
  have hview : e.view? p = some ⟨t, e.flagsOf p.descriptor.strategy, !e.isOpen p⟩ := by
    rw [view?, ht]
    rfl
  simp only [Stages.block, Stages.deliverError, Block.immediate, instruct, hview]

end

/-- A strategy with a course. -/
def OnCourse (s : Strategy) : Prop := ∃ visits late, s.Course visits late

/-- The phases of tasks, and the errands of the handlers that deliver. -/
structure Underway (window : Duration) (retries : Nat) (e : Engine σ) : Prop where
  phases : ∀ (i : Nat) (t : Task) (visits late : Stage → Prop), e.tasks[i]? = some t →
    t.descriptor.strategy.Course visits late →
    Phase visits late t.results.items t.delivered.items (e.ahead i)
  errands : ∀ (index : Nat) (h : Handler), e.handlers[index]? = some h → h.stage.Delivers →
    ∀ p ∈ h.promises, ∀ t, e.tasks[p.task]? = some t → OnCourse t.descriptor.strategy →
    Errand window retries p t.results.items t.delivered.items (e.isOpen p) h.state

namespace Underway

theorem start (blocks : Stage → Block) (world : σ) :
    Underway window retries (Engine.start blocks world) where
  phases := fun i t visits late ht => by simp [Engine.start] at ht
  errands := fun i h hi => by simp [Engine.start] at hi

/-- A handler that is about to use a promise does what its stage may, and a stage that delivers has
delivered. -/
theorem ready (h : Underway window retries e) (hk : Compliant Stages.contract e) {index : Nat}
    {x : Handler} {p : Promise} {m : Move} {t : Task} (hx : e.handlers[index]? = some x)
    (hp : p ∈ x.promises) (ha : x.AboutTo p m) (ht : e.tasks[p.task]? = some t)
    (hc : OnCourse t.descriptor.strategy) :
    Phase.Allowed p.stage m ∧ (p.stage.Delivers → t.delivered.items ≠ []) := by
  have hstage : p.stage = x.stage := hk.stages index x hx p hp
  have herrand := fun hd => h.errands index x hx hd p hp t ht hc
  constructor
  · rcases hk.allows hx ha with hm | ⟨ending, error, hends, herr, hst, rfl⟩
    · exact .inl (hstage ▸ hm)
    · refine .inr ⟨error, rfl, hstage ▸ hends, fun hd => ?_⟩
      have he := herrand (.inl (hstage ▸ hd))
      rw [hst] at he
      rw [he.of_ended] at herr
      exact absurd herr (by simp [Ending.error?])
  · intro hd
    have he := herrand (hstage ▸ hd)
    cases ha with
    | complete m k hr =>
      rw [hr] at he
      exact (he.of_complete hd).1
    | rescue ending error hr herr =>
      rw [hr] at he
      rw [he.of_ended] at herr
      exact absurd herr (by simp [Ending.error?])

/-- A handler that is about to deliver has picked what its stage may deliver, and has yet to use its
promise. -/
theorem picks (h : Underway window retries e) (hk : Compliant Stages.contract e) {index : Nat}
    {x : Handler} {p : Promise} {v : Verdict} {k : Bool → Routine} {t : Task}
    (hx : e.handlers[index]? = some x) (hr : x.state = .running (.deliver p v k))
    (hp : p ∈ x.promises) (ht : e.tasks[p.task]? = some t) (hc : OnCourse t.descriptor.strategy) :
    Phase.Picked p.stage t.results.items v ∧ e.isOpen p = true := by
  have hstage : p.stage = x.stage := hk.stages index x hx p hp
  have hkeeps := hk.keeps index x hx
  rw [Handler.Keeps, hr] at hkeeps
  have hdelivers : x.stage.Delivers := hkeeps.1.2
  have herrand := h.errands index x hx hdelivers p hp t ht hc
  rw [hr] at herrand
  obtain ⟨hpicked, ho, -⟩ := herrand.of_deliver (hstage ▸ hdelivers)
  exact ⟨hpicked, ho⟩

/-- Every step leads every task from phase to phase. -/
theorem phases_step (h : Underway window retries e) (hl : Ledger e) (hclosed : Closings e)
    (hk : Compliant Stages.contract e) (he : Effect e e') {i : Nat} {t' : Task}
    {visits late : Stage → Prop} (ht' : e'.tasks[i]? = some t')
    (hc : t'.descriptor.strategy.Course visits late) :
    Phase visits late t'.results.items t'.delivered.items (e'.ahead i) := by
  cases he.fate hl ht' with
  | use index x p m t hx hp ha ho hpi ht hd hr hdel hissued hisOpen hperm =>
    subst hpi
    rw [hd] at hc
    obtain ⟨hallowed, hdelivered⟩ := h.ready hk hx hp ha ht ⟨visits, late, hc⟩
    have hnext := (h.phases p.task t visits late ht hc).use hc (mem_ahead (mem_issued hx hp) ho)
      hallowed hdelivered
    rw [hl.verdict_eq (mem_issued hx hp) ht] at hr hperm
    rw [hr, hdel]
    exact hnext.perm hperm
  | deliver index x p v k t hx hr hp hpi ht heq hisOpen hperm =>
    subst hpi
    subst heq
    have hd : (t.deliver v).1.descriptor = t.descriptor := by rw [Task.deliver_frame]
    have hres : (t.deliver v).1.results = t.results := by rw [Task.deliver_frame]
    rw [hd] at hc
    obtain ⟨hpicked, ho⟩ := h.picks hk hx hr hp ht ⟨visits, late, hc⟩
    have hlive := hl.unfinished_of_open (mem_issued hx hp) ho ht
    rw [hres, Task.items_deliver ((hclosed.closed p.task t ht).trans hlive)]
    exact ((h.phases p.task t visits late ht hc).deliver hc (mem_ahead (mem_issued hx hp) ho)
      hpicked).perm hperm
  | create d hnone heq hisOpen hperm =>
    subst heq
    exact (Phase.start hc).perm hperm
  | keep t ht hat hopen hperm =>
    rw [hat.results, hat.delivered]
    exact (h.phases i t visits late ht (hat.descriptor ▸ hc)).perm hperm

/-- While a stage that comes before the delivery of a result has a task, its results do not change. -/
theorem results_of_open (h : Underway window retries e) (hl : Ledger e) (he : Effect e e')
    {p : Promise} (hp : p ∈ e.issued) (hr : p.stage ≠ .deliverResult) (hs : p.stage ≠ .saveToCache)
    (ho : e.isOpen p = true) (ho' : e'.isOpen p = true) {t t' : Task}
    (ht : e.tasks[p.task]? = some t) (ht' : e'.tasks[p.task]? = some t')
    (hc : OnCourse t.descriptor.strategy) : t'.results.items = t.results.items := by
  cases he.fate hl ht' with
  | use index x q m t₀ hx hq ha hqo hqp ht₀ hd hres hdel hissued hisOpen =>
    -- two promises of the task would be open
    have hne : p ≠ q := by
      rintro rfl
      rw [hisOpen, if_pos rfl] at ho'
      exact Bool.noConfusion ho'
    obtain ⟨visits, late, hc⟩ := hc
    have htwo := two_le_ahead (mem_issued hx hq) hp hqp hqo ho hne.symm
    have hone := (h.phases p.task t visits late ht hc).length_eq_one (mem_ahead hp ho) hr hs
    omega
  | deliver index x q v k t₀ hx hq hqx hqp ht₀ heq =>
    rw [ht] at ht₀
    cases ht₀
    rw [heq, Task.deliver_frame]
  | create d hnone =>
    rw [ht] at hnone
    cases hnone
  | keep t₀ ht₀ hat =>
    rw [ht] at ht₀
    cases ht₀
    exact hat.results

/-- A handler that has a verdict for its task has picked the right one. -/
theorem picked_of_begins (h : Underway window retries e) {p : Promise} {t : Task}
    (hp : p ∈ e.issued) (ho : e.isOpen p = true) (hd : p.stage.Delivers)
    (ht : e.tasks[p.task]? = some t) (hc : OnCourse t.descriptor.strategy)
    (env : Environment σ) (index : Nat) :
    ∃ v, Phase.Picked p.stage t.results.items v ∧
      e.instruct env index ((Stages.block window retries p.stage).onTask p) =
        e.resume index (.deliver p v fun _ => Stages.settle p (.follow true) (.finish .ok)) := by
  obtain ⟨visits, late, hc⟩ := hc
  have hphase := h.phases p.task t visits late ht hc
  have hahead := mem_ahead hp ho
  rcases hd with hs | hs
  · rw [hs] at hahead ⊢
    obtain ⟨w, hw, hws⟩ := hphase.success_of_result hc hahead
    obtain ⟨v, hv⟩ : ∃ v, t.lastSuccess? = some v := by
      rw [← Option.isSome_iff_exists, Task.lastSuccess?, ReplayLog.last?, List.find?_isSome]
      exact ⟨w, List.mem_reverse.2 hw, hws⟩
    refine ⟨v, .inl ⟨rfl, ?_, ?_⟩, ?_⟩
    · exact List.mem_reverse.1 (List.mem_of_find?_eq_some hv)
    · have hfound := List.find?_some hv
      exact hfound
    · rw [instruct_deliverResult window retries ht, hv]
  · rw [hs] at hahead ⊢
    obtain ⟨v, hv⟩ := Option.ne_none_iff_exists'.1 (hphase.failure_of_error hc hahead)
    have hlast : t.lastFailure? = some v := hv
    refine ⟨v, .inr ⟨rfl, hv⟩, ?_⟩
    rw [instruct_deliverError window retries ht, Stages.failureOf, hlast, Option.getD_some]

/-- An instruction takes a handler further on its errand. -/
theorem errand_instruct (h : Underway window retries e) (hl : Ledger e) (hclosed : Closings e)
    {index : Nat} {x x' : Handler} {r : Routine} {p : Promise} {t t' : Task}
    (hx : e.handlers[index]? = some x) (hr : x.state = .running r)
    (hx' : (e.instruct env index r).handlers[index]? = some x') (hp : p ∈ x.promises)
    (hstage : p.stage = x.stage) (hd : x.stage.Delivers) (ht : e.tasks[p.task]? = some t)
    (ht' : (e.instruct env index r).tasks[p.task]? = some t')
    (hc : OnCourse t.descriptor.strategy) :
    Errand window retries p t'.results.items t'.delivered.items
      ((e.instruct env index r).isOpen p) x'.state := by
  have hpi : p ∈ e.issued := mem_issued hx hp
  have herrand := h.errands index x hx hd p hp t ht hc
  rw [hr] at herrand
  generalize hst : HandlerState.running r = state at herrand
  generalize hob : e.isOpen p = b at herrand
  cases herrand with
  | begins =>
    cases hst
    obtain ⟨v, hv, hi⟩ := h.picked_of_begins hpi hob (hstage ▸ hd) ht hc env index
    rw [hi] at hx' ht' ⊢
    rw [state_resume hx rfl hx']
    have ho : (e.resume index (.deliver p v fun _ => Stages.settle p (.follow true)
        (.finish .ok))).isOpen p = true := hob
    rw [ho]
    have hsame : e.tasks[p.task]? = some t' := ht'
    rw [ht] at hsame
    cases hsame
    exact .carries v hv
  | carries v hv =>
    cases hst
    rw [state_resume hx (by rw [deliver_eq]) hx']
    have ho : (e.instruct env index (.deliver p v fun _ => Stages.settle p (.follow true)
        (.finish .ok))).isOpen p = true := by
      rw [isOpen_instruct fun _ _ _ hq => by cases hq]
      exact hob
    rw [ho]
    have htask : (e.deliver p.task v).2.tasks[p.task]? = some t' := ht'
    rw [tasks_deliver, if_pos rfl, ht] at htask
    cases htask
    have hlive := hl.unfinished_of_open hpi hob ht
    refine .delivered ?_
    rw [Task.items_deliver ((hclosed.closed p.task t ht).trans hlive)]
    split
    · exact List.cons_ne_nil v []
    · assumption
  | delivered hne =>
    cases hst
    rw [state_resume hx (by rw [complete_eq]) hx']
    exact .done _
  | done b =>
    cases hst
    rw [state_endHandler hx hx']
    exact .ended _
  | ended b => cases hst

/-- Every step keeps every handler that delivers on its errand. -/
theorem errands_step (h : Underway window retries e) (hl : Ledger e) (hclosed : Closings e)
    (hk : Compliant Stages.contract e) (hb : e.blocks = Stages.block window retries)
    (hc : e'.cancelled = false) (he : Effect e e') (hs : Step env drift e e') {index : Nat}
    {x' : Handler} (hx' : e'.handlers[index]? = some x') (hd : x'.stage.Delivers) {p : Promise}
    (hp : p ∈ x'.promises) {t' : Task} (ht' : e'.tasks[p.task]? = some t')
    (hcourse : OnCourse t'.descriptor.strategy) :
    Errand window retries p t'.results.items t'.delivered.items (e'.isOpen p) x'.state := by
  -- the task of a promise that was given before, as it was
  have hbefore : p ∈ e.issued → ∃ t, e.tasks[p.task]? = some t ∧ t.Grows t' ∧
      OnCourse t.descriptor.strategy := by
    intro hpi
    obtain ⟨t, ht, hg⟩ := hs.task_back hl hpi ht'
    exact ⟨t, ht, hg, hg.descriptor ▸ hcourse⟩
  rcases hs.handler_back hl hc hx' with ⟨x, hx, hkept⟩ | ⟨x, r, state, hx, hr, rfl, rfl⟩ |
    ⟨-, hstart⟩
  · rw [hkept.promises] at hp
    rw [hkept.stage] at hd
    rw [hkept.state]
    have hpi := mem_issued hx hp
    obtain ⟨t, ht, hg, hct⟩ := hbefore hpi
    have herrand := h.errands index x hx hd p hp t ht hct
    refine herrand.later (fun hrun => hkept.isOpen hrun p hp) hg.results hg.delivered ?_
    intro hrun hps ho
    rw [h.results_of_open hl he hpi (hps ▸ by decide) (hps ▸ by decide) ho
      ((hkept.isOpen hrun p hp).trans ho) ht ht' hct]
  · have hpx : p ∈ x.promises := hp
    obtain ⟨t, ht, -, hct⟩ := hbefore (mem_issued hx hpx)
    exact h.errand_instruct hl hclosed hx hr hx' hpx (hk.stages index x hx p hpx) hd ht ht' hct
  · obtain ⟨hps, ho, -⟩ := hstart.promises p hp
    have hwindow : (e.blocks x'.stage).window = none := by
      rw [hb]
      rcases hd with hd | hd <;> rw [hd] <;> rfl
    rw [ho, (hstart.onTask hwindow hp).2, hb, ← hps]
    exact .begins

end Underway

/-! ## Every run -/

section

/-- A handler of a built-in stage begins as its contract allows. -/
theorem Started.keeps (hb : e.blocks = Stages.block window retries) {x : Handler}
    (h : Started e e' x) : x.Keeps (Stages.contract x.stage x.promises) := by
  rcases h.routine with ⟨-, p, hp, hst⟩ | ⟨hw, hst, -⟩
  · rw [Handler.Keeps, hst, hb, hp]
    exact Stages.obeys_onTask window retries x.stage p
  · rw [Handler.Keeps, hst]
    rw [hb] at hw ⊢
    -- the network stage is the only one with a window
    have hnet : x.stage = .getFromNet := by
      cases hx : x.stage <;> rw [hx] at hw <;> first | rfl | exact absurd rfl hw
    rw [hnet]
    exact Stages.obeys_onWindow window x.promises

theorem Reachable.effect {blocks : Stage → Block} (he : Reachable env drift blocks e)
    (hb : ∀ s, (blocks s).Proper) (hs : Step env drift e e') (hc : e'.cancelled = false) :
    Effect e e' :=
  hs.effect (he.ledger hb (hs.frame.2.1 hc)) ((he.step hs).ledger hb hc)
    (he.running (hs.frame.2.1 hc)) hc

variable (he : Reachable env drift (Stages.block window retries) e) (hc : e.cancelled = false)
include he hc

theorem Reachable.compliant : Compliant Stages.contract e := by
  induction he with
  | start world => exact .start _ world
  | step he hs ih =>
    have hc' := hs.frame.2.1 hc
    refine (ih hc').step (he.ledger (Stages.proper_block window retries) hc') hc hs
      (fun x hx => hx.keeps he.blocks_eq) fun index x hx => ?_
    exact ⟨fun _ _ _ => trivial, fun _ _ => trivial, fun _ => trivial, fun _ _ _ => trivial,
      fun _ _ => trivial, fun _ => trivial⟩

theorem Reachable.underway : Underway window retries e := by
  induction he with
  | start world => exact .start _ world
  | step he hs ih =>
    have hc' := hs.frame.2.1 hc
    have hproper := Stages.proper_block window retries
    have hl := he.ledger hproper hc'
    have hclosed := he.closings hproper hc'
    have hk := he.compliant hc'
    have heff := he.effect hproper hs hc
    have hu := ih hc'
    refine ⟨fun i t visits late ht hcourse => hu.phases_step hl hclosed hk heff ht hcourse, ?_⟩
    intro index x hx hd p hp t ht hcourse
    exact hu.errands_step hl hclosed hk he.blocks_eq hc heff hs hx hd hp ht hcourse

/-- The moves of built-in stages and of their supervisors.  Under a strategy with a course, the delivery
of a result does not fail. -/
def StageMove (p : Promise) (m : Move) : Prop :=
  Stages.Moves p.stage m ∨
    ∃ error, m = .fail error ∧ Stages.MayBreak p.stage ∧
      (OnCourse p.descriptor.strategy → p.stage ≠ .deliverResult)

theorem Reachable.stageMove {index : Nat} {x : Handler} {p : Promise} {m : Move}
    (hx : e.handlers[index]? = some x) (hp : p ∈ x.promises) (ha : x.AboutTo p m) :
    StageMove p m := by
  have hk := he.compliant hc
  have hstage := hk.stages index x hx p hp
  rcases hk.allows hx ha with hm | ⟨ending, error, hends, -, -, rfl⟩
  · exact .inl (hstage ▸ hm)
  · refine .inr ⟨error, rfl, hstage ▸ hends, fun hcourse => ?_⟩
    obtain ⟨t, ht, -, hd⟩ :=
      (he.ledger (Stages.proper_block window retries) hc).promised p (mem_issued hx hp)
    rcases ((he.underway hc).ready hk hx hp ha ht (hd ▸ hcourse)).1 with hm | ⟨-, -, -, hne⟩
    · -- a failure is not a move of that stage
      rintro hps
      rw [hps] at hm
      exact absurd (show Move.fail error = .follow true from hm) (by simp)
    · exact hne

end

end Engine
end RpcFlow
