import RpcFlow.Proofs.Engine.Agreement
import RpcFlow.Proofs.Strategy.Landings

/-!
# Tasks that are delivered to under any tables

Routes may send a task into several stages at once, and some of them may lead nowhere.  As long as
the strategy leads every way to a delivery, one of the stages ahead of a task that was not delivered
to is on such a way.  The delivery of a result is the delicate case: a handler that found no result
will fail, even if another stage finds one before the supervisor notices; so there has to be a stay
in that stage for which it is not too late.

* `Duty` — how far a handler of a stage that delivers has come with its promise.
* `Engine.Dutiful` — the invariant of these handlers and of those that write to the cache.
* `Engine.Stuck`, `Engine.Spare` — promises that will fail for want of a result, and that there are
  fewer of them than stays.
* `Engine.Afloat`, `Engine.Reachable.afloat` — the invariant, and that it holds in every run.
* `Engine.Reachable.delivered` — **a task that has finished was delivered to exactly once**, if its
  strategy leads to a delivery.
-/

set_option autoImplicit false

namespace RpcFlow

namespace Task

/-- Has the task a result? -/
def answered (t : Task) : Bool := t.results.items.any Verdict.isSuccess

/-- A verdict was delivered, or none will be any more. -/
def Told (t : Task) : Prop := t.delivered.items ≠ [] ∨ t.delivered.completed = true

variable {t t' : Task}

theorem Grows.told (h : t.Grows t') (ht : t.Told) : t'.Told := by
  rcases ht with hne | hc
  · exact .inl fun hnil => hne (List.prefix_nil.1 (hnil ▸ h.delivered))
  · exact .inr (h.closed hc ▸ hc)

/-- A result is not lost. -/
theorem Grows.answered (h : t.Grows t') (ht : t.answered = true) : t'.answered = true := by
  obtain ⟨v, hv, hs⟩ := List.any_eq_true.1 ht
  exact List.any_eq_true.2 ⟨v, h.results.subset hv, hs⟩

theorem told_deliver (t : Task) (v : Verdict) : (t.deliver v).1.Told := by
  cases hc : t.delivered.completed with
  | true => exact .inr ((Grows.deliver t v).closed hc ▸ hc)
  | false =>
    refine .inl ?_
    rw [Task.items_deliver hc]
    split
    · exact List.cons_ne_nil v []
    · assumption

theorem lastSuccess?_of_answered (h : t.answered = true) : ∃ v, t.lastSuccess? = some v := by
  obtain ⟨v, hv, hs⟩ := List.any_eq_true.1 h
  rw [← Option.isSome_iff_exists, lastSuccess?, ReplayLog.last?, List.find?_isSome]
  exact ⟨v, List.mem_reverse.2 hv, hs⟩

theorem cachedText?_of_not_answered (h : t.answered = false) : Stages.cachedText? t = none := by
  have hnone : t.lastSuccess? = none := by
    rw [lastSuccess?, ReplayLog.last?, List.find?_eq_none]
    intro v hv
    exact List.any_eq_false.1 h v (List.mem_reverse.1 hv)
  rw [Stages.cachedText?, hnone]

end Task

/-! ## Handlers that deliver -/

/-- What a handler of a stage that delivers is about to do with its promise; `told` says that the
task was delivered to.  Only a handler that looked for a result in vain ends with an error. -/
inductive Duty (window : Duration) (retries : Nat) (p : Promise) (told : Prop) : HandlerState → Prop
  | begins : Duty window retries p told (.running ((Stages.block window retries p.stage).onTask p))
  | carries (v : Verdict) : Duty window retries p told
      (.running (.deliver p v fun _ => Stages.settle p (.follow true) (.finish .ok)))
  | delivered : told → Duty window retries p told
      (.running (Stages.settle p (.follow true) (.finish .ok)))
  | leaves (ending : Ending) : (ending ≠ .ok → p.stage = .deliverResult) →
    Duty window retries p told (.running (.finish ending))
  | left (ending : Ending) : (ending ≠ .ok → p.stage = .deliverResult) →
    Duty window retries p told (.ended ending)

/-- A state of a handler that has failed or is about to fail. -/
def HandlerState.Fails (state : HandlerState) : Prop :=
  ∃ ending, ending ≠ .ok ∧ (state = .running (.finish ending) ∨ state = .ended ending)

theorem HandlerState.not_fails_deliver (p : Promise) (v : Verdict) (k : Bool → Routine) :
    ¬ (HandlerState.running (.deliver p v k)).Fails := by
  rintro ⟨ending, -, hf | hf⟩ <;> cases hf

theorem HandlerState.not_fails_settle (p : Promise) (m : Move) (k : Routine) :
    ¬ (HandlerState.running (Stages.settle p m k)).Fails := by
  rintro ⟨ending, -, hf | hf⟩ <;> cases hf

/-- A handler of a stage that delivers does not fail outright. -/
theorem HandlerState.not_fails_onTask {p : Promise} (window : Duration) (retries : Nat)
    (hs : p.stage.Delivers) :
    ¬ (HandlerState.running ((Stages.block window retries p.stage).onTask p)).Fails := by
  obtain ⟨k, hk⟩ := Errand.onTask_eq window retries hs
  rw [hk]
  rintro ⟨ending, -, hf | hf⟩ <;> cases hf

namespace Duty

variable {window : Duration} {retries : Nat} {p : Promise} {told told' : Prop} {state : HandlerState}

theorem mono (h : Duty window retries p told state) (ht : told → told') :
    Duty window retries p told' state := by
  cases h with
  | begins => exact .begins
  | carries v => exact .carries v
  | delivered hd => exact .delivered (ht hd)
  | leaves ending he => exact .leaves ending he
  | left ending he => exact .left ending he

/-- A handler uses its promise after a delivery. -/
theorem of_complete {q : Promise} {m : Move} {k : Bool → Routine} (hs : p.stage.Delivers)
    (h : Duty window retries p told (.running (.complete q m k))) : m = .follow true ∧ told := by
  obtain ⟨k', hk'⟩ := Errand.onTask_eq window retries hs
  generalize hst : HandlerState.running (.complete q m k) = state at h
  cases h with
  | begins => rw [hk'] at hst; cases hst
  | delivered hd => cases hst; exact ⟨rfl, hd⟩
  | _ => cases hst

/-- A handler that fails looked for a result. -/
theorem stage_of_fails (hs : p.stage.Delivers) (h : Duty window retries p told state)
    (hf : state.Fails) : p.stage = .deliverResult := by
  cases h with
  | begins => exact absurd hf (HandlerState.not_fails_onTask window retries hs)
  | carries v => exact absurd hf (HandlerState.not_fails_deliver _ _ _)
  | delivered => exact absurd hf (HandlerState.not_fails_settle _ _ _)
  | leaves ending he =>
    obtain ⟨ending', hne, hf | hf⟩ := hf <;> cases hf
    exact he hne
  | left ending he =>
    obtain ⟨ending', hne, hf | hf⟩ := hf <;> cases hf
    exact he hne

end Duty

/-! ## Handlers that write to the cache -/

/-- The contract of a handler that writes to the cache, as long as the task of a promise has nothing
to write. -/
def Stages.idle (p : Promise) (ps : List Promise) : Contract :=
  { Contract.own ps with
    ends := fun _ => False
    sees := fun q view => q = p → view.task.answered = false }

theorem Stages.idle_onTask (window : Duration) (retries : Nat) (p : Promise) :
    ((Stages.block window retries .saveToCache).onTask p).Obeys (Stages.idle p [p]) := by
  refine ⟨List.mem_cons_self, fun view hview => ?_⟩
  simp only [Task.cachedText?_of_not_answered (hview rfl)]
  exact Stages.obeys_settle List.mem_cons_self trivial (.inl rfl)

namespace Engine

variable {σ : Type} {env : Environment σ} {drift : σ → σ → Prop} {window : Duration} {retries : Nat}
  {e e' : Engine σ}

/-- Every handler of a stage that delivers does its duty, and one that writes to the cache has
nothing to do as long as its task has no result. -/
structure Dutiful (window : Duration) (retries : Nat) (e : Engine σ) : Prop where
  duties : ∀ (index : Nat) (h : Handler), e.handlers[index]? = some h → h.stage.Delivers →
    ∀ p ∈ h.promises, ∀ t, e.tasks[p.task]? = some t → Duty window retries p t.Told h.state
  idle : ∀ (index : Nat) (h : Handler), e.handlers[index]? = some h → h.stage = .saveToCache →
    ∀ p ∈ h.promises, ∀ t, e.tasks[p.task]? = some t → t.answered = false →
    h.Keeps (Stages.idle p h.promises)

namespace Dutiful

theorem start (blocks : Stage → Block) (world : σ) :
    Dutiful window retries (Engine.start blocks world) where
  duties := fun i h hi => by simp [Engine.start] at hi
  idle := fun i h hi => by simp [Engine.start] at hi

/-- An instruction takes a handler further in its duty; it will fail if there is no result. -/
theorem duty_instruct (h : Dutiful window retries e) {index : Nat} {x x' : Handler} {r : Routine}
    {p : Promise} {t t' : Task} (hx : e.handlers[index]? = some x) (hr : x.state = .running r)
    (hx' : (e.instruct env index r).handlers[index]? = some x') (hp : p ∈ x.promises)
    (hd : x.stage.Delivers) (hstage : p.stage = x.stage) (ht : e.tasks[p.task]? = some t)
    (ht' : (e.instruct env index r).tasks[p.task]? = some t') :
    Duty window retries p t'.Told x'.state ∧
      (x'.state.Fails → t.answered = true → x.state.Fails) := by
  have hduty := h.duties index x hx hd p hp t ht
  rw [hr] at hduty ⊢
  generalize hst : HandlerState.running r = state at hduty
  cases hduty with
  | begins =>
    cases hst
    rcases hstage ▸ hd with hs | hs
    · rw [hs, instruct_deliverResult window retries ht] at hx'
      rw [state_resume hx rfl hx']
      cases hl : t.lastSuccess? with
      | none =>
        refine ⟨.leaves _ fun _ => hs, fun _ ha => ?_⟩
        obtain ⟨v, hv⟩ := Task.lastSuccess?_of_answered ha
        rw [hl] at hv
        cases hv
      | some v => exact ⟨.carries v, fun hf => absurd hf (HandlerState.not_fails_deliver _ _ _)⟩
    · rw [hs, instruct_deliverError window retries ht] at hx'
      rw [state_resume hx rfl hx']
      exact ⟨.carries _, fun hf => absurd hf (HandlerState.not_fails_deliver _ _ _)⟩
  | carries v =>
    cases hst
    rw [state_resume hx (by rw [deliver_eq]) hx']
    have htask : (e.deliver p.task v).2.tasks[p.task]? = some t' := ht'
    rw [tasks_deliver, if_pos rfl, ht] at htask
    cases htask
    exact ⟨.delivered (Task.told_deliver t v), fun hf =>
      absurd hf (HandlerState.not_fails_settle _ _ _)⟩
  | delivered =>
    cases hst
    rw [state_resume hx (by rw [complete_eq]) hx']
    refine ⟨.leaves .ok fun hne => absurd rfl hne, fun hf => ?_⟩
    obtain ⟨ending, hne, hf | hf⟩ := hf
    · cases hf
      exact absurd rfl hne
    · cases hf
  | leaves ending he =>
    cases hst
    rw [state_endHandler hx hx']
    refine ⟨.left ending he, fun hf _ => ?_⟩
    obtain ⟨ending', hne, hf | hf⟩ := hf
    · cases hf
    · cases hf
      exact ⟨ending, hne, .inl rfl⟩
  | left ending => cases hst

/-- Every step keeps every handler in its duty. -/
theorem step (h : Dutiful window retries e) (hl : Ledger e) (hk : Compliant Stages.contract e)
    (hb : e.blocks = Stages.block window retries) (hc : e'.cancelled = false)
    (hs : Step env drift e e') : Dutiful window retries e' := by
  -- what has no result now had none before
  have hunanswered : ∀ {t t' : Task}, t.Grows t' → t'.answered = false → t.answered = false := by
    intro t t' hg hno
    cases ha : t.answered with
    | false => rfl
    | true => exact absurd (hno.symm.trans (hg.answered ha)) Bool.false_ne_true
  refine ⟨fun index x' hx' hd p hp t' ht' => ?_, fun index x' hx' hsave p hp t' ht' hno => ?_⟩
  · rcases hs.handler_back hl hc hx' with ⟨x, hx, hkept⟩ | ⟨x, r, state, hx, hr, rfl, rfl⟩ |
      ⟨-, hstart⟩
    · rw [hkept.promises] at hp
      rw [hkept.stage] at hd
      rw [hkept.state]
      obtain ⟨t, ht, hg⟩ := hs.task_back hl (mem_issued hx hp) ht'
      exact (h.duties index x hx hd p hp t ht).mono hg.told
    · have hpx : p ∈ x.promises := hp
      obtain ⟨t, ht, -⟩ := hs.task_back hl (mem_issued hx hpx) ht'
      exact (h.duty_instruct hx hr hx' hpx hd (hk.stages index x hx p hpx) ht ht').1
    · have hwindow : (e.blocks x'.stage).window = none := by
        rw [hb]
        rcases hd with hd | hd <;> rw [hd] <;> rfl
      rw [(hstart.onTask hwindow hp).2, hb, ← (hstart.promises p hp).1]
      exact .begins
  · refine hs.handler_keeps hl hc hx' (fun x hx hstage hps => ?_) fun hstart => ?_
    · rw [hps] at hp ⊢
      obtain ⟨t, ht, hg⟩ := hs.task_back hl (mem_issued hx hp) ht'
      refine ⟨h.idle index x hx (hstage ▸ hsave) p hp t ht (hunanswered hg hno), ?_⟩
      exact
        { sees := fun q view hview hq => by
            rw [view?, hq, ht] at hview
            cases hview
            exact hunanswered hg hno
          fetches := fun _ _ => trivial
          reads := fun _ => trivial
          stores := fun _ _ _ => trivial
          decodes := fun _ _ => trivial
          validates := fun _ => trivial }
    · obtain ⟨hq, hst⟩ := hstart.onTask (by rw [hb, hsave]; rfl) hp
      rw [Handler.Keeps, hst, hb, hq, hsave]
      exact Stages.idle_onTask window retries p

end Dutiful

theorem Reachable.dutiful (he : Reachable env drift (Stages.block window retries) e)
    (hc : e.cancelled = false) : Dutiful window retries e := by
  induction he with
  | start world => exact .start _ world
  | step he hs ih =>
    have hc' := hs.frame.2.1 hc
    exact (ih hc').step (he.ledger (Stages.proper_block window retries) hc') (he.compliant hc')
      he.blocks_eq hc hs

/-! ## Promises that will fail -/

/-- An open promise to deliver the result of a task, whose handler found none. -/
def Stuck (e : Engine σ) (i : Nat) (p : Promise) : Prop :=
  p.task = i ∧ p.stage = .deliverResult ∧ e.isOpen p = true ∧
    ∃ (index : Nat) (h : Handler), e.handlers[index]? = some h ∧ p ∈ h.promises ∧ h.state.Fails

/-- A task has a stay ahead in the stage that delivers results, besides those that will fail. -/
def Spare (e : Engine σ) (i : Nat) : Prop :=
  ∀ l : List Promise, (l.map Promise.number).Nodup → (∀ p ∈ l, e.Stuck i p) →
    l.length < (e.ahead i).count .deliverResult

theorem Stuck.mem_issued {i : Nat} {p : Promise} (h : e.Stuck i p) : p ∈ e.issued := by
  obtain ⟨-, -, -, index, x, hx, hp, -⟩ := h
  exact Engine.mem_issued hx hp

/-- Open promises to deliver the result of a task are stays ahead of it. -/
theorem length_le_ahead {i : Nat} {l : List Promise} (hn : (l.map Promise.number).Nodup)
    (hl : ∀ p ∈ l, p ∈ e.issued ∧ p.task = i ∧ p.stage = .deliverResult ∧ e.isOpen p = true) :
    l.length ≤ (e.ahead i).count .deliverResult := by
  have hsub : l.Subperm (e.issued.filter fun p => p.task == i && e.isOpen p) := by
    refine List.subperm_of_subset (List.Nodup.of_map _ hn) fun p hp => ?_
    obtain ⟨hpi, ht, -, ho⟩ := hl p hp
    exact List.mem_filter.2 ⟨hpi, by simp [ht, ho]⟩
  have hcount : (l.map Promise.stage).count .deliverResult = l.length := by
    rw [List.count_eq_length.2, List.length_map]
    intro s hs
    obtain ⟨p, hp, rfl⟩ := List.mem_map.1 hs
    exact (hl p hp).2.2.1.symm
  have hpending : l.length ≤ (e.pending i).count .deliverResult := by
    obtain ⟨l', hperm, hsub⟩ := hsub
    rw [← hcount, ← (hperm.map Promise.stage).count_eq]
    exact (hsub.map Promise.stage).count_le _
  simp only [ahead, List.count_append]
  omega

/-- **Once a task has a result, no further promise gets stuck.** -/
theorem Step.stuck_back (hs : Step env drift e e') (hl : Ledger e) (hk : Compliant Stages.contract e)
    (hd : Dutiful window retries e) (hb : e.blocks = Stages.block window retries)
    (hc : e'.cancelled = false) (he : Effect e e') {i : Nat} {t : Task} (ht : e.tasks[i]? = some t)
    (ha : t.answered = true) {p : Promise} (h : e'.Stuck i p) : e.Stuck i p := by
  obtain ⟨rfl, hstage, ho, index, x', hx', hp, hf⟩ := h
  rcases hs.handler_back hl hc hx' with ⟨x, hx, hkept⟩ | ⟨x, r, state, hx, hr, rfl, rfl⟩ |
    ⟨-, hstart⟩
  · rw [hkept.promises] at hp
    rw [hkept.state] at hf
    exact ⟨rfl, hstage, he.open_back (Engine.mem_issued hx hp) ho, index, x, hx, hp, hf⟩
  · have hpx : p ∈ x.promises := hp
    have hdelivers : p.stage.Delivers := .inl hstage
    have hps := hk.stages index x hx p hpx
    obtain ⟨t', ht', -⟩ := hs.grows p.task t ht
    have hf' := (hd.duty_instruct hx hr hx' hpx (hps ▸ hdelivers) hps ht ht').2 hf ha
    exact ⟨rfl, hstage, he.open_back (Engine.mem_issued hx hpx) ho, index, x, hx, hpx, hf'⟩
  · have hps := (hstart.promises p hp).1
    have hdelivers : p.stage.Delivers := .inl hstage
    rw [(hstart.onTask (by rw [hb, ← hps, hstage]; rfl) hp).2, hb, ← hps] at hf
    exact absurd hf (HandlerState.not_fails_onTask window retries hdelivers)

/-- A spare stay is kept as long as no stay is used. -/
theorem Spare.step {i : Nat} (h : e.Spare i) (hstuck : ∀ p, e'.Stuck i p → e.Stuck i p)
    (hcount : (e.ahead i).count .deliverResult ≤ (e'.ahead i).count .deliverResult) : e'.Spare i :=
  fun l hn hl => Nat.lt_of_lt_of_le (h l hn fun p hp => hstuck p (hl p hp)) hcount

/-! ## The invariant -/

/-- A verdict was delivered, or a stage ahead is on a way to a delivery. -/
def Afloat (on : Stage → Bool → Prop) (e : Engine σ) (i : Nat) (t : Task) : Prop :=
  t.delivered.items ≠ [] ∨ ∃ q ∈ e.ahead i, on q t.answered ∧
    (q = .deliverResult → on .deliverResult false ∨ e.Spare i)

end Engine

/-- A stage that is on stays on when the task gets a result. -/
theorem Strategy.Lands.answered {s : Strategy} {on : Stage → Bool → Prop} (h : s.Lands on) {q : Stage}
    {found found' : Bool} (hq : on q found) (hf : found = true → found' = true) : on q found' := by
  cases found with
  | true => exact hf rfl ▸ hq
  | false =>
    cases found' with
    | false => exact hq
    | true => exact h.later q hq

/-- What comes of the move of a built-in stage that does not deliver, or of its supervisor. -/
theorem Strategy.way_of_move {s : Strategy} {q : Stage} {m : Move} {found : Bool}
    (hm : Stages.Moves q m ∨ ∃ error, m = .fail error ∧ Stages.MayBreak q)
    (hsave : q = .saveToCache → m = .follow true ∨ found = true) (hq : ¬q.Delivers) :
    (found || (m.verdict s q).isSuccess, (m.verdict s q).next) ∈ s.ways q found := by
  cases q with
  | initial =>
    rcases hm with hm | ⟨error, -, hb⟩
    · rw [show m = .follow true from hm]
      simp [Move.verdict, Verdict.isSuccess, Verdict.next, ways]
    · exact absurd hb (by simp [Stages.MayBreak])
  | checkAuthToken =>
    rcases hm with hm | ⟨error, -, hb⟩
    · rw [show m = .follow true from hm]
      simp [Move.verdict, Verdict.isSuccess, Verdict.next, ways]
    · exact absurd hb (by simp [Stages.MayBreak])
  | getFromCache =>
    rcases hm with (⟨payload, raw, rfl⟩ | rfl) | ⟨error, rfl, -⟩ <;>
      simp [Move.verdict, Verdict.isSuccess, Verdict.next, ways]
  | getFromNet =>
    rcases hm with (⟨payload, raw, rfl⟩ | ⟨error, rfl⟩ | rfl) | ⟨error, rfl, -⟩ <;>
      simp [Move.verdict, Verdict.isSuccess, Verdict.next, ways]
  | resolveError =>
    rcases hm with (rfl | rfl) | ⟨error, -, hb⟩
    · simp [Move.verdict, Verdict.isSuccess, Verdict.next, ways]
    · simp [Move.verdict, Verdict.isSuccess, Verdict.next, ways]
    · exact absurd hb (by simp [Stages.MayBreak])
  | saveToCache =>
    rcases hm with hm | ⟨error, rfl, -⟩
    · rw [show m = .follow true from hm]
      cases found <;> simp [Move.verdict, Verdict.isSuccess, Verdict.next, ways]
    · have hfound : found = true := (hsave rfl).resolve_left (by simp)
      rw [hfound]
      simp [Move.verdict, Verdict.isSuccess, Verdict.next, ways]
  | deliverResult => exact absurd (.inl rfl) hq
  | deliverError => exact absurd (.inr rfl) hq

namespace Engine

variable {σ : Type} {env : Environment σ} {drift : σ → σ → Prop} {window : Duration} {retries : Nat}
  {e e' : Engine σ} {on : Stage → Bool → Prop}

theorem Afloat.perm {i : Nat} {t t' : Task} (h : Afloat on e i t)
    (hr : t'.results.items = t.results.items) (hd : t.delivered.items ≠ [] → t'.delivered.items ≠ [])
    (hperm : (e'.ahead i).Perm (e.ahead i))
    (hstuck : t.answered = true → ∀ p, e'.Stuck i p → e.Stuck i p) : Afloat on e' i t' := by
  have ha : t'.answered = t.answered := by rw [Task.answered, Task.answered, hr]
  refine h.imp hd fun ⟨q, hq, hon, hspare⟩ => ⟨q, hperm.mem_iff.2 hq, ha ▸ hon, fun hqd => ?_⟩
  subst hqd
  cases hans : t.answered with
  | false => exact .inl (hans ▸ hon)
  | true =>
    exact (hspare rfl).imp_right fun h =>
      h.step (hstuck hans) (Nat.le_of_eq (hperm.count_eq _).symm)

/-- A task whose promise is used stays afloat. -/
theorem Afloat.use {i : Nat} {t t' : Task} {p : Promise} {m : Move} {s : Strategy}
    (h : Afloat on e i t) (hlands : s.Lands on)
    (hr : t'.results.items = t.results.items ++ [m.verdict s p.stage])
    (hd : t'.delivered.items = t.delivered.items)
    (hperm : (e'.ahead i).Perm ((e.ahead i).erase p.stage ++ (m.verdict s p.stage).next))
    (hm : ¬p.stage.Delivers → (t.answered || (m.verdict s p.stage).isSuccess,
      (m.verdict s p.stage).next) ∈ s.ways p.stage t.answered)
    (hdeliver : p.stage.Delivers → t.delivered.items ≠ [] ∨
      e.Stuck i p ∧ (m.verdict s p.stage).next = s.next .deliverResult false)
    (hopen : ∀ q, e'.Stuck i q → q ∈ e.issued ∧ e.isOpen q = true ∧ q.number ≠ p.number)
    (hstuck : t.answered = true → ∀ q, e'.Stuck i q → e.Stuck i q) : Afloat on e' i t' := by
  have ha : t'.answered = (t.answered || (m.verdict s p.stage).isSuccess) := by
    simp [Task.answered, hr, List.any_append]
  have hlater : t.answered = true → t'.answered = true := fun h => by rw [ha, h, Bool.true_or]
  have hcount : (e'.ahead i).count .deliverResult =
      ((e.ahead i).erase p.stage).count .deliverResult +
        (m.verdict s p.stage).next.count .deliverResult := by
    rw [hperm.count_eq, List.count_append]
  rcases h with hne | ⟨q, hq, hon, hspare⟩
  · exact .inl (hd ▸ hne)
  by_cases hqp : q = p.stage
  swap
  · -- the promise is for another stage
    have hq' : q ∈ (e.ahead i).erase p.stage := (List.mem_erase_of_ne hqp).2 hq
    refine .inr ⟨q, hperm.mem_iff.2 (List.mem_append_left _ hq'), hlands.answered hon hlater,
      fun hqd => ?_⟩
    subst hqd
    rw [List.count_erase_of_ne hqp] at hcount
    cases hans : t.answered with
    | false => exact .inl (hans ▸ hon)
    | true => exact (hspare rfl).imp_right fun h => h.step (hstuck hans) (by omega)
  subst hqp
  by_cases hdel : p.stage.Delivers
  swap
  · -- the way leads on
    obtain ⟨r, hr', hon'⟩ := hlands.goesOn _ _ hon _ (hm hdel)
    refine .inr ⟨r, hperm.mem_iff.2 (List.mem_append_right _ hr'), ha ▸ hon', fun hrd => ?_⟩
    subst hrd
    refine .inr fun l hn hl => ?_
    have hle := length_le_ahead (e := e) hn fun x hx =>
      ⟨(hopen x (hl x hx)).1, (hl x hx).1, (hl x hx).2.1, (hopen x (hl x hx)).2.1⟩
    have hpos : 0 < (m.verdict s p.stage).next.count .deliverResult := List.count_pos_iff.2 hr'
    rw [List.count_erase_of_ne fun h => hdel (.inl h.symm)] at hcount
    omega
  rcases hdeliver hdel with hne | ⟨hst, hnext⟩
  · exact .inl (hd ▸ hne)
  -- there was no result to deliver
  have hps : p.stage = .deliverResult := hst.2.1
  rw [hps] at hon hcount hperm
  by_cases hfalse : on .deliverResult false
  · obtain ⟨r, hr', hon'⟩ := hlands.goesOn _ _ hfalse _ List.mem_cons_self
    have hmem : r ∈ e'.ahead i :=
      hperm.mem_iff.2 (List.mem_append_right _ (by rw [← hps, hnext]; exact hr'))
    exact .inr ⟨r, hmem, hlands.answered hon' fun h => Bool.noConfusion h, fun hrd => .inl (hrd ▸ hon')⟩
  have hans : t.answered = true := by
    cases hans : t.answered with
    | false => exact absurd (hans ▸ hon) hfalse
    | true => rfl
  have hspare' : e'.Spare i := by
    intro l hn hl
    have hlt := (hspare hps).resolve_left hfalse (p :: l)
      (List.nodup_cons.2 ⟨fun hmem => by
        obtain ⟨x, hx, hxp⟩ := List.mem_map.1 hmem
        exact (hopen x (hl x hx)).2.2 hxp, hn⟩)
      (List.forall_mem_cons.2 ⟨hst, fun x hx => hstuck hans x (hl x hx)⟩)
    rw [List.count_erase_self] at hcount
    rw [List.length_cons] at hlt
    omega
  refine .inr ⟨.deliverResult, ?_, hlands.answered hon hlater, fun _ => .inr hspare'⟩
  exact List.count_pos_iff.1 (hspare' [] List.nodup_nil fun x hx => absurd hx List.not_mem_nil)

section
variable (hd : Dutiful window retries e) (hk : Compliant Stages.contract e) {index : Nat} {x : Handler}
  {p : Promise} {m : Move} {t : Task} (hx : e.handlers[index]? = some x) (hp : p ∈ x.promises)
  (ha : x.AboutTo p m) (ht : e.tasks[p.task]? = some t)
include hd hk hx hp ha ht

/-- A stage that does not deliver sends its task on a way. -/
theorem Dutiful.way (s : Strategy) (hdelivers : ¬p.stage.Delivers) :
    (t.answered || (m.verdict s p.stage).isSuccess, (m.verdict s p.stage).next) ∈
      s.ways p.stage t.answered := by
  have hstage : p.stage = x.stage := hk.stages index x hx p hp
  have hallows := hk.allows hx ha
  refine Strategy.way_of_move ?_ (fun hsave => ?_) hdelivers
  · rcases hallows with hm | ⟨ending, error, hends, -, -, rfl⟩
    · exact .inl (hstage ▸ hm)
    · exact .inr ⟨error, rfl, hstage ▸ hends⟩
  rcases hallows with hm | ⟨ending, error, -, herr, hst, -⟩
  · rw [← hstage, hsave] at hm
    exact .inl hm
  · -- a handler with nothing to save does not fail
    cases hans : t.answered with
    | true => exact .inr rfl
    | false =>
      have hidle := hd.idle index x hx (hstage ▸ hsave) p hp t ht hans
      rw [Handler.Keeps, hst] at hidle
      rcases hidle with rfl | hfalse
      · exact absurd herr (by simp [Ending.error?])
      · exact hfalse.elim

/-- A stage that delivers has delivered by the time it uses its promise, or is stuck. -/
theorem Dutiful.delivered_or_stuck (s : Strategy) (ho : e.isOpen p = true)
    (hopen : t.delivered.completed = false) (hdelivers : p.stage.Delivers) :
    t.delivered.items ≠ [] ∨
      e.Stuck p.task p ∧ (m.verdict s p.stage).next = s.next .deliverResult false := by
  have hstage : p.stage = x.stage := hk.stages index x hx p hp
  have hduty := hd.duties index x hx (hstage ▸ hdelivers) p hp t ht
  cases ha with
  | complete m k hrun =>
    rw [hrun] at hduty
    rcases (hduty.of_complete hdelivers).2 with hne | hclosed
    · exact .inl hne
    · rw [hopen] at hclosed
      exact Bool.noConfusion hclosed
  | rescue ending error hst herr =>
    have hfails : x.state.Fails :=
      ⟨ending, fun hok => by rw [hok] at herr; simp [Ending.error?] at herr, .inr hst⟩
    have hps := hduty.stage_of_fails hdelivers hfails
    exact .inr ⟨⟨rfl, hps, ho, index, x, hx, hp, hfails⟩, by rw [hps]; rfl⟩

end

/-- **Every step keeps every task afloat.** -/
theorem afloat_step (h : ∀ (i : Nat) (t : Task) (on : Stage → Bool → Prop), e.tasks[i]? = some t →
      t.descriptor.strategy.Lands on → Afloat on e i t) (hl : Ledger e) (hclosed : Closings e)
    (hk : Compliant Stages.contract e) (hd : Dutiful window retries e)
    (hb : e.blocks = Stages.block window retries) (hc : e'.cancelled = false)
    (hs : Step env drift e e') (he : Effect e e') {i : Nat} {t' : Task}
    (ht' : e'.tasks[i]? = some t') (hlands : t'.descriptor.strategy.Lands on) :
    Afloat on e' i t' := by
  have hstuck : ∀ t, e.tasks[i]? = some t → t.answered = true → ∀ p, e'.Stuck i p → e.Stuck i p :=
    fun t ht ha p hp => hs.stuck_back hl hk hd hb hc he ht ha hp
  cases he.fate hl ht' with
  | use index x p m t hx hp ha ho hpi ht hdesc hr hdel hissued hisOpen hperm =>
    subst hpi
    rw [hdesc] at hlands
    have hpx := Engine.mem_issued hx hp
    have hlive := hl.unfinished_of_open hpx ho ht
    rw [hl.verdict_eq hpx ht] at hr hperm
    refine (h p.task t on ht hlands).use hlands hr hdel hperm (hd.way hk hx hp ha ht _)
      (hd.delivered_or_stuck hk hx hp ha ht _ ho ((hclosed.closed p.task t ht).trans hlive))
      (fun q hq => ?_) (hstuck t ht)
    have hqo : e'.isOpen q = true := hq.2.2.1
    rw [hisOpen] at hqo
    split at hqo
    · exact Bool.noConfusion hqo
    · rename_i hne
      exact ⟨hissued ▸ hq.mem_issued, hqo, hne⟩
  | deliver index x p v k t hx hr hp hpi ht heq hisOpen hperm =>
    subst heq
    have hg := Task.Grows.deliver t v
    refine (h i t on ht (hg.descriptor ▸ hlands)).perm (by rw [Task.deliver_frame])
      (fun hne hnil => ?_) hperm (hstuck t ht)
    exact hne (List.prefix_nil.1 (hnil ▸ hg.delivered))
  | create d hnone heq hisOpen hperm =>
    subst heq
    exact .inr ⟨.initial, hperm.mem_iff.2 List.mem_cons_self, hlands.start, fun h => by cases h⟩
  | keep t ht hat hopen hperm =>
    exact (h i t on ht (hat.descriptor ▸ hlands)).perm hat.results
      (fun hne => hat.delivered ▸ hne) hperm (hstuck t ht)

section
variable (he : Reachable env drift (Stages.block window retries) e) (hc : e.cancelled = false)
include he hc

/-- Every task whose strategy leads to a delivery stays afloat in every run. -/
theorem Reachable.afloat : ∀ (i : Nat) (t : Task) (on : Stage → Bool → Prop), e.tasks[i]? = some t →
    t.descriptor.strategy.Lands on → Afloat on e i t := by
  induction he with
  | start world => exact fun i t on ht => by simp [Engine.start] at ht
  | step he hs ih =>
    intro i t' on ht' hlands
    have hc' := hs.frame.2.1 hc
    have hproper := Stages.proper_block window retries
    exact afloat_step (ih hc') (he.ledger hproper hc') (he.closings hproper hc') (he.compliant hc')
      (he.dutiful hc') he.blocks_eq hc hs (he.effect hproper hs hc) ht' hlands

/-- **A task that has finished was delivered to exactly once**, if its strategy leads to a delivery.
-/
theorem Reachable.delivered {i : Nat} {t : Task} (ht : e.tasks[i]? = some t)
    (hf : t.isFinished = true) (hd : t.descriptor.strategy.Delivers) :
    ∃ v, t.delivered.items = [v] ∧ v.isRoute = false := by
  obtain ⟨on, hon⟩ := hd
  have hl := he.ledger (Stages.proper_block window retries) hc
  have hnone : e.ahead i = [] := hl.ahead_of_held ht ((hl.finished i t ht).1 hf)
  rcases he.afloat hc i t on ht hon with hne | ⟨q, hq, -⟩
  · exact (he.posted.once i t ht).resolve_left hne
  · rw [hnone] at hq
    exact absurd hq List.not_mem_nil

end

end Engine
end RpcFlow
