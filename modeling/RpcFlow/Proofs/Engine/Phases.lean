import RpcFlow.Proofs.Engine.BuiltIn
import RpcFlow.Proofs.Strategy.Courses

/-!
# The phases of a task

A task under a strategy with a course is in one of three phases: it has no result yet, and exactly one
stage lies ahead of it; or it has one, and only the delivery of the result and the cache lie ahead; or
its last failure was delivered and nothing lies ahead.

* `Phase` — the phase, by the verdicts so far, what was delivered, and the stages ahead.
* `Phase.use` — the moves of the built-in stages lead from phase to phase.
* `Phase.deliver` — so do their deliveries.
* `Phase.delivered_of_nil` — **once nothing lies ahead, exactly one verdict was delivered**.
-/

set_option autoImplicit false

namespace RpcFlow

/-- The last failure among verdicts. -/
def lastFailureOf (results : List Verdict) : Option Verdict :=
  results.reverse.find? Verdict.isFailure

/-- The phase of a task. -/
inductive Phase (visits late : Stage → Prop) (results delivered : List Verdict)
    (ahead : List Stage) : Prop
  /-- There is no result yet; once the last failure is delivered, only its delivery is left. -/
  | trying (q : Stage) : ahead.Perm [q] → visits q → (late q → lastFailureOf results ≠ none) →
    (∀ v ∈ results, v.isSuccess = false) →
    (delivered = [] ∨ q = .deliverError ∧ ∃ v, lastFailureOf results = some v ∧ delivered = [v]) →
    Phase visits late results delivered ahead
  /-- There is a result, and it is delivered or will be. -/
  | succeeded : (∃ v ∈ results, v.isSuccess = true) →
    (∀ q ∈ ahead, q = .deliverResult ∨ q = .saveToCache) →
    (delivered = [] ∧ .deliverResult ∈ ahead ∨
      ∃ v ∈ results, v.isSuccess = true ∧ delivered = [v]) →
    Phase visits late results delivered ahead
  /-- The last failure was delivered. -/
  | failed : ahead = [] → (∀ v ∈ results, v.isSuccess = false) →
    (∃ v, lastFailureOf results = some v ∧ delivered = [v]) →
    Phase visits late results delivered ahead

/-- The only stage ahead is left. -/
theorem erase_of_perm_singleton {q q' : Stage} {ahead : List Stage} (hperm : ahead.Perm [q'])
    (hq : q ∈ ahead) : q = q' ∧ ahead.erase q = [] := by
  have hqq : q = q' := List.mem_singleton.1 (hperm.subset hq)
  have he := hperm.erase q
  rw [hqq, List.erase_cons_head] at he
  exact ⟨hqq, hqq ▸ he.eq_nil⟩

theorem lastFailureOf_append_failure (results : List Verdict) (error : CallError)
    (next : List Stage) :
    lastFailureOf (results ++ [.failure error next]) = some (.failure error next) := by
  simp [lastFailureOf, Verdict.isFailure]

theorem lastFailureOf_append_of_not {results : List Verdict} {v : Verdict}
    (h : v.isFailure = false) : lastFailureOf (results ++ [v]) = lastFailureOf results := by
  simp [lastFailureOf, h]

namespace Phase

variable {visits late : Stage → Prop} {results delivered : List Verdict} {ahead ahead' : List Stage}

theorem perm (h : Phase visits late results delivered ahead) (hp : ahead'.Perm ahead) :
    Phase visits late results delivered ahead' := by
  cases h with
  | trying q hq hv hl hn hd => exact .trying q (hp.trans hq) hv hl hn hd
  | succeeded hs hq hd =>
    refine .succeeded hs (fun q h => hq q (hp.subset h)) ?_
    exact hd.imp_left fun ⟨h₁, h₂⟩ => ⟨h₁, hp.symm.subset h₂⟩
  | failed ha hn hd => exact .failed (ha ▸ hp).eq_nil hn hd

/-- A task begins in its first stage. -/
theorem start {s : Strategy} (hc : s.Course visits late) : Phase visits late [] [] [.initial] :=
  .trying .initial (.refl _) hc.start.1 (fun h => absurd h hc.start.2)
    (fun _ hv => absurd hv List.not_mem_nil) (.inl rfl)

/-- What a stage of a course may ask for, or what is asked for it when its handler breaks. -/
def Allowed (q : Stage) (m : Move) : Prop :=
  Stages.Moves q m ∨ ∃ error, m = .fail error ∧ Stages.MayBreak q ∧ q ≠ .deliverResult

/-- Some stages only send a task on its way. -/
theorem Allowed.follows {q : Stage} {m : Move} (hm : Allowed q m)
    (hq : q = .initial ∨ q = .checkAuthToken ∨ q = .deliverError) : m = .follow true := by
  rcases hm with hm | ⟨error, -, hb, -⟩
  · rcases hq with rfl | rfl | rfl <;> exact hm
  · rcases hq with rfl | rfl | rfl <;> exact absurd hb (by simp [Stages.MayBreak])

/-! ### Ways on while there is no result -/

theorem not_success_append {v : Verdict} (hno : ∀ w ∈ results, w.isSuccess = false)
    (hv : v.isSuccess = false) : ∀ w ∈ results ++ [v], w.isSuccess = false := by
  intro w hw
  rcases List.mem_append.1 hw with hw | hw
  · exact hno w hw
  · rw [List.mem_singleton.1 hw]
    exact hv

/-- The task goes on to a stage, and there is nothing new to tell. -/
theorem routed {r : Stage} (hno : ∀ w ∈ results, w.isSuccess = false) (hr : visits r)
    (hl : late r → lastFailureOf results ≠ none) :
    Phase visits late (results ++ [.route [r]]) [] [r] := by
  refine .trying r (.refl _) hr (fun h => ?_) (not_success_append hno rfl) (.inl rfl)
  rw [lastFailureOf_append_of_not rfl]
  exact hl h

/-- The task goes on to a stage with a failure. -/
theorem broken {r : Stage} (hno : ∀ w ∈ results, w.isSuccess = false) (error : CallError)
    (hr : visits r) : Phase visits late (results ++ [.failure error [r]]) [] [r] := by
  refine .trying r (.refl _) hr (fun _ => ?_) (not_success_append hno rfl) (.inl rfl)
  rw [lastFailureOf_append_failure]
  exact Option.some_ne_none _

/-- The task has got its result. -/
theorem answered {next : List Stage} (payload : Json) (raw : Option String)
    (hnext : next = [.deliverResult] ∨ next = [.deliverResult, .saveToCache]) :
    Phase visits late (results ++ [.success payload raw next]) [] next := by
  refine .succeeded ⟨_, List.mem_append_right _ List.mem_cons_self, rfl⟩ (fun x hx => ?_)
    (.inl ⟨rfl, ?_⟩)
  · rcases hnext with rfl | rfl
    · exact .inl (List.mem_singleton.1 hx)
    · rcases List.mem_cons.1 hx with hx | hx
      · exact .inl hx
      · exact .inr (List.mem_singleton.1 hx)
  · rcases hnext with rfl | rfl <;> exact List.mem_cons_self

/-- The one stage ahead of a task without a result makes its move. -/
theorem use_trying {s : Strategy} (hc : s.Course visits late) {q : Stage} (hvis : visits q)
    (hlate : late q → lastFailureOf results ≠ none) (hno : ∀ v ∈ results, v.isSuccess = false)
    (hdel : delivered = [] ∨
      q = .deliverError ∧ ∃ v, lastFailureOf results = some v ∧ delivered = [v])
    {m : Move} (hm : Allowed q m) (hd : q = .deliverResult ∨ q = .deliverError → delivered ≠ []) :
    Phase visits late (results ++ [m.verdict s q]) delivered (m.verdict s q).next := by
  have hnone : q ≠ .deliverError → delivered = [] := fun hne =>
    hdel.resolve_right fun h => hne h.1
  cases q with
  | initial =>
    obtain ⟨r, hr, hv, hl⟩ := hc.initial
    rw [hnone (by decide), hm.follows (.inl rfl), Move.verdict, hr]
    exact routed hno hv fun h => absurd h hl
  | checkAuthToken =>
    obtain ⟨r, hr, hv, hl⟩ := hc.authorized
    rw [hnone (by decide), hm.follows (.inr (.inl rfl)), Move.verdict, hr]
    exact routed hno hv fun h => absurd h hl
  | getFromCache =>
    obtain ⟨r, hr, hv, hl⟩ := hc.miss hvis
    rw [hnone (by decide)]
    rcases hm with (⟨payload, raw, rfl⟩ | rfl) | ⟨error, rfl, -, -⟩
    · simp only [Move.verdict, Verdict.next, hc.hit hvis]
      exact answered payload raw (.inl rfl)
    · simp only [Move.verdict, Verdict.next, hr]
      exact routed hno hv fun h => hlate (hl h)
    · simp only [Move.verdict, Verdict.next, hr]
      exact broken hno error hv
  | getFromNet =>
    obtain ⟨r, hr, hv⟩ := hc.failed
    rw [hnone (by decide)]
    rcases hm with (⟨payload, raw, rfl⟩ | ⟨error, rfl⟩ | rfl) | ⟨error, rfl, -, -⟩
    · simp only [Move.verdict, Verdict.next]
      exact answered payload raw hc.answered
    · simp only [Move.verdict, Verdict.next, hr]
      exact broken hno error hv
    · exact routed hno hc.net hlate
    · simp only [Move.verdict, Verdict.next, hr]
      exact broken hno error hv
  | resolveError =>
    rw [hnone (by decide)]
    rcases hm with (rfl | rfl) | ⟨error, -, hb, -⟩
    · exact routed hno hc.net fun _ => hlate hc.resolve
    · exact routed hno hc.error.1 fun _ => hlate hc.resolve
    · exact absurd hb (by simp [Stages.MayBreak])
  | deliverError =>
    rw [hm.follows (.inr (.inr rfl)), Move.verdict, (hc.last true).2.1]
    refine .failed rfl (not_success_append hno rfl) ?_
    rw [lastFailureOf_append_of_not rfl]
    exact (hdel.resolve_left (hd (.inr rfl))).2
  | deliverResult => exact absurd hvis hc.result
  | saveToCache => exact absurd hvis hc.saved

/-- A stage that is ahead of a task with a result is the last on its way, and finds no other. -/
theorem ends_of_succeeded {s : Strategy}
    (hlast : ∀ b, s.next .deliverResult b = [] ∧ s.next .deliverError b = [] ∧
      s.next .saveToCache b = []) {q : Stage}
    (hq : q = .deliverResult ∨ q = .saveToCache) {m : Move} (hm : Allowed q m) :
    (m.verdict s q).next = [] ∧ (m.verdict s q).isSuccess = false := by
  rcases hq with rfl | rfl
  · rcases hm with hm | ⟨error, -, -, hne⟩
    · rw [show m = .follow true from hm]
      exact ⟨(hlast true).1, rfl⟩
    · exact absurd rfl hne
  · rcases hm with hm | ⟨error, rfl, -, -⟩
    · rw [show m = .follow true from hm]
      exact ⟨(hlast true).2.2, rfl⟩
    · exact ⟨(hlast false).2.2, rfl⟩

/-- **Every move leads from phase to phase.**  The stages that deliver have to have delivered. -/
theorem use {s : Strategy} (hc : s.Course visits late)
    (h : Phase visits late results delivered ahead) {q : Stage} (hq : q ∈ ahead) {m : Move}
    (hm : Allowed q m) (hd : q = .deliverResult ∨ q = .deliverError → delivered ≠ []) :
    Phase visits late (results ++ [m.verdict s q]) delivered
      (ahead.erase q ++ (m.verdict s q).next) := by
  cases h with
  | failed ha hn hdel => exact absurd hq (ha ▸ List.not_mem_nil)
  | succeeded hs hall hdel =>
    rw [(ends_of_succeeded hc.last (hall q hq) hm).1, List.append_nil]
    obtain ⟨v, hv, hvs⟩ := hs
    refine .succeeded ⟨v, List.mem_append_left _ hv, hvs⟩
      (fun x hx => hall x (List.mem_of_mem_erase hx)) ?_
    rcases hdel with ⟨hnil, hmem⟩ | ⟨w, hw, hws, heq⟩
    · -- nothing was delivered yet, so this is not the stage that delivers
      have hne : q ≠ .deliverResult := fun h => hd (.inl h) hnil
      exact .inl ⟨hnil, (List.mem_erase_of_ne (Ne.symm hne)).2 hmem⟩
    · exact .inr ⟨w, List.mem_append_left _ hw, hws, heq⟩
  | trying q' hperm hvis hlate hno hdel =>
    obtain ⟨rfl, herase⟩ := erase_of_perm_singleton hperm hq
    rw [herase, List.nil_append]
    exact use_trying hc hvis hlate hno hdel hm hd

/-- What the stages that deliver may deliver. -/
def Picked (q : Stage) (results : List Verdict) (v : Verdict) : Prop :=
  q = .deliverResult ∧ v ∈ results ∧ v.isSuccess = true ∨
    q = .deliverError ∧ lastFailureOf results = some v

/-- **A delivery leads from phase to phase.** -/
theorem deliver {s : Strategy} (hc : s.Course visits late)
    (h : Phase visits late results delivered ahead) {q : Stage} (hq : q ∈ ahead) {v : Verdict}
    (hv : Picked q results v) :
    Phase visits late results (if delivered = [] then [v] else delivered) ahead := by
  split
  swap
  · exact h
  cases h with
  | failed ha hn hdel => exact absurd hq (ha ▸ List.not_mem_nil)
  | succeeded hs hall hdel =>
    rcases hv with ⟨rfl, hmem, hvs⟩ | ⟨rfl, -⟩
    · exact .succeeded hs hall (.inr ⟨v, hmem, hvs, rfl⟩)
    · rcases hall _ hq with h | h <;> exact absurd h (by decide)
  | trying q' hperm hvis hlate hno hdel =>
    have hqq : q = q' := List.mem_singleton.1 (hperm.subset hq)
    subst hqq
    rcases hv with ⟨rfl, -⟩ | ⟨rfl, hlast⟩
    · exact absurd hvis hc.result
    · exact .trying .deliverError hperm hvis hlate hno (.inr ⟨rfl, v, hlast, rfl⟩)

/-- A task that is about to have a result delivered has one. -/
theorem success_of_result {s : Strategy} (hc : s.Course visits late)
    (h : Phase visits late results delivered ahead) (hq : .deliverResult ∈ ahead) :
    ∃ v ∈ results, v.isSuccess = true := by
  cases h with
  | failed ha => exact absurd hq (ha ▸ List.not_mem_nil)
  | succeeded hs => exact hs
  | trying q hperm hvis =>
    rw [← List.mem_singleton.1 (hperm.subset hq)] at hvis
    exact absurd hvis hc.result

/-- A task that is about to have its error delivered has one. -/
theorem failure_of_error {s : Strategy} (hc : s.Course visits late)
    (h : Phase visits late results delivered ahead) (hq : .deliverError ∈ ahead) :
    lastFailureOf results ≠ none := by
  cases h with
  | failed ha => exact absurd hq (ha ▸ List.not_mem_nil)
  | succeeded hs hall => rcases hall _ hq with h | h <;> exact absurd h (by decide)
  | trying q hperm hvis hlate =>
    rw [← List.mem_singleton.1 (hperm.subset hq)] at hlate
    exact hlate hc.error.2

/-- What is delivered was recorded, and is not a mere choice of way. -/
theorem recorded_of_delivered (h : Phase visits late results delivered ahead) {v : Verdict}
    (hv : v ∈ delivered) : v ∈ results ∧ v.isRoute = false := by
  have hlast : ∀ {w : Verdict}, lastFailureOf results = some w → w ∈ results ∧ w.isRoute = false := by
    intro w hw
    have hf := List.find?_some hw
    refine ⟨List.mem_reverse.1 (List.mem_of_find?_eq_some hw), ?_⟩
    cases w <;> first | rfl | exact Bool.noConfusion hf
  cases h with
  | trying q hperm hvis hlate hno hdel =>
    rcases hdel with hnil | ⟨-, w, hw, heq⟩
    · exact absurd (hnil ▸ hv) List.not_mem_nil
    · rw [heq, List.mem_singleton] at hv
      exact hv ▸ hlast hw
  | succeeded hs hall hdel =>
    rcases hdel with ⟨hnil, -⟩ | ⟨w, hw, hws, heq⟩
    · exact absurd (hnil ▸ hv) List.not_mem_nil
    · rw [heq, List.mem_singleton] at hv
      subst hv
      refine ⟨hw, ?_⟩
      cases v <;> first | rfl | exact Bool.noConfusion hws
  | failed ha hn hdel =>
    obtain ⟨w, hw, heq⟩ := hdel
    rw [heq, List.mem_singleton] at hv
    exact hv ▸ hlast hw

/-- A stage that comes before the delivery of a result lies ahead alone. -/
theorem length_eq_one (h : Phase visits late results delivered ahead) {q : Stage} (hq : q ∈ ahead)
    (hr : q ≠ .deliverResult) (hs : q ≠ .saveToCache) : ahead.length = 1 := by
  cases h with
  | trying q' hperm => exact hperm.length_eq
  | succeeded hres hall => exact absurd (hall q hq) (by simp [hr, hs])
  | failed ha => exact absurd hq (ha ▸ List.not_mem_nil)

/-- It lies ahead once at most. -/
theorem count_le_one (h : Phase visits late results delivered ahead) {q : Stage}
    (hr : q ≠ .deliverResult) (hs : q ≠ .saveToCache) : ahead.count q ≤ 1 := by
  by_cases hq : q ∈ ahead
  · exact Nat.le_trans List.count_le_length (Nat.le_of_eq (h.length_eq_one hq hr hs))
  · rw [List.count_eq_zero.2 hq]
    omega

/-- **Once nothing lies ahead, one verdict was delivered**: a result if there is one, and the last
failure otherwise. -/
theorem delivered_of_nil (h : Phase visits late results delivered []) :
    ∃ v, delivered = [v] ∧ v ∈ results ∧
      ((∃ w ∈ results, w.isSuccess = true) → v.isSuccess = true) ∧
      ((∀ w ∈ results, w.isSuccess = false) → lastFailureOf results = some v) := by
  cases h with
  | trying q hperm => exact absurd hperm.symm.eq_nil (by simp)
  | succeeded hs hall hdel =>
    rcases hdel with ⟨-, hmem⟩ | ⟨v, hv, hvs, heq⟩
    · exact absurd hmem List.not_mem_nil
    · refine ⟨v, heq, hv, fun _ => hvs, fun hno => ?_⟩
      rw [hno v hv] at hvs
      exact Bool.noConfusion hvs
  | failed ha hno hdel =>
    obtain ⟨v, hlast, heq⟩ := hdel
    refine ⟨v, heq, ?_, fun ⟨w, hw, hws⟩ => ?_, fun _ => hlast⟩
    · exact List.mem_reverse.1 (List.mem_of_find?_eq_some hlast)
    · rw [hno w hw] at hws
      exact Bool.noConfusion hws

end Phase
end RpcFlow
