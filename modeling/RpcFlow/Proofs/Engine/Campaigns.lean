import RpcFlow.Proofs.Engine.Phases
import RpcFlow.Proofs.Strategy.Trails

/-!
# Campaigns of repeated calls

The calls that are made for a task under a strategy with a trail form a campaign: each of them but
the last has failed in the transport and was repeated.  What is known of the verdicts so far depends
on how far the campaign has come: it is on its way to the network, it has failed there, it was given
up, or it is over with a result.  Calls that are put off leave the campaign where it is.

* `Repeated` — the calls that were repeated, and `Stages.repeats` — whether one more is.
* `Campaign` — how far a campaign has come.
* `Campaign.use` — the moves of the built-in stages lead from one point of a campaign to another, if
  nothing is found in the cache.
* `Campaign.outcome` — **when nothing lies ahead**, the last call has decided.
-/

set_option autoImplicit false

namespace RpcFlow

/-- Is a call repeated after these verdicts?  The strategy has to allow it, the last failure has to
be one of the transport, and the budget must not be used up. -/
def Stages.repeats (retries : Nat) (again : Bool) (results : List Verdict) : Bool :=
  again && (lastFailureOf results).any Verdict.isNetworkFailure &&
    decide (results.countP Verdict.isNetworkFailure ≤ retries)

/-- What the stage that may repeat a call asks for after these verdicts. -/
def Stages.resolution (retries : Nat) (again : Bool) (results : List Verdict) : Move :=
  .goTo [if repeats retries again results then .getFromNet else .deliverError]

/-- Failures after each of which the call was repeated. -/
structure Repeated (retries : Nat) (again : Bool) (failures : List Verdict) : Prop where
  network : ∀ v ∈ failures, v.isNetworkFailure = true
  again : failures ≠ [] → again = true
  length : failures.length ≤ retries

/-- How far the calls for a task have come, by the outcomes of the calls so far, all verdicts so
far, and the stages ahead. -/
inductive Campaign (early fallen : Stage → Prop) (retries : Nat) (again : Bool)
    (attempts results : List Verdict) (ahead : List Stage) : Prop
  /-- The network lies ahead. -/
  | trying (q : Stage) : ahead.Perm [q] → early q → Repeated retries again attempts →
    (results.filter fun v => !v.isRoute) = attempts →
    Campaign early fallen retries again attempts results ahead
  /-- The last call has failed, and it is open whether it will be repeated. -/
  | failed (q : Stage) (front : List Verdict) (last : Verdict) : ahead.Perm [q] → fallen q →
    attempts = front ++ [last] → Repeated retries again front → last.isFailure = true →
    (results.filter fun v => !v.isRoute) = attempts →
    Campaign early fallen retries again attempts results ahead
  /-- The last call has failed, and it will not be repeated. -/
  | givenUp (front : List Verdict) (last : Verdict) : (∀ q ∈ ahead, q = .deliverError) →
    attempts = front ++ [last] → Repeated retries again front → last.isFailure = true →
    (again = true → last.isNetworkFailure = true → front.length = retries) →
    (results.filter fun v => !v.isRoute) = attempts →
    Campaign early fallen retries again attempts results ahead
  /-- The last call has brought the only result. -/
  | succeeded (front : List Verdict) (last : Verdict) :
    (∀ q ∈ ahead, q = .deliverResult ∨ q = .saveToCache) →
    attempts = front ++ [last] → Repeated retries again front → last.isSuccess = true →
    results.filter Verdict.isSuccess = [last] →
    Campaign early fallen retries again attempts results ahead

namespace Verdict

variable {v : Verdict}

theorem not_isRoute_of_isSuccess (h : v.isSuccess = true) : v.isRoute = false := by
  cases v <;> first | rfl | exact Bool.noConfusion h

theorem not_isSuccess_of_isFailure (h : v.isFailure = true) : v.isSuccess = false := by
  cases v <;> first | rfl | exact Bool.noConfusion h

theorem isFailure_of_isNetworkFailure (h : v.isNetworkFailure = true) : v.isFailure = true := by
  cases v <;> first | rfl | exact Bool.noConfusion h

end Verdict

/-- If all that is left without the mere choices of way are failures, there is no result. -/
theorem not_isSuccess_of_failures {attempts results : List Verdict}
    (hr : (results.filter fun v => !v.isRoute) = attempts) (hf : ∀ v ∈ attempts, v.isFailure = true) :
    ∀ v ∈ results, v.isSuccess = false := by
  intro v hv
  rw [← Bool.not_eq_true]
  intro hs
  have hmem : v ∈ attempts := by
    rw [← hr, List.mem_filter, Verdict.not_isRoute_of_isSuccess hs]
    exact ⟨hv, rfl⟩
  rw [Verdict.not_isSuccess_of_isFailure (hf v hmem)] at hs
  exact Bool.noConfusion hs

theorem Repeated.failures {retries : Nat} {again : Bool} {l : List Verdict}
    (h : Repeated retries again l) : ∀ v ∈ l, v.isFailure = true := fun v hv =>
  Verdict.isFailure_of_isNetworkFailure (h.network v hv)

/-- Mere choices of way do not hide a failure. -/
theorem lastFailureOf_filter (results : List Verdict) :
    lastFailureOf (results.filter fun v => !v.isRoute) = lastFailureOf results := by
  have hboth : (fun v : Verdict => decide ((!v.isRoute) = true ∧ v.isFailure = true)) =
      Verdict.isFailure := by
    funext v
    cases v <;> rfl
  rw [lastFailureOf, lastFailureOf, ← List.filter_reverse, List.find?_filter, hboth]

theorem countP_isNetworkFailure_filter (results : List Verdict) :
    (results.filter fun v => !v.isRoute).countP Verdict.isNetworkFailure =
      results.countP Verdict.isNetworkFailure := by
  rw [List.countP_filter]
  refine List.countP_congr fun v _ => ?_
  cases v <;> simp [Verdict.isNetworkFailure, Verdict.isRoute]

/-- The outcome that a verdict of a stage adds to the calls of a task. -/
def attempt? (q : Stage) (v : Verdict) : List Verdict :=
  if q = .getFromNet ∧ v.isRoute = false then [v] else []

namespace Campaign

variable {early fallen : Stage → Prop} {retries : Nat} {again : Bool}
  {attempts results : List Verdict} {ahead ahead' : List Stage}

theorem perm (h : Campaign early fallen retries again attempts results ahead)
    (hp : ahead'.Perm ahead) : Campaign early fallen retries again attempts results ahead' := by
  cases h with
  | trying q hq hv hrep hr => exact .trying q (hp.trans hq) hv hrep hr
  | failed q front last hq hv ha hrep hl hr =>
    exact .failed q front last (hp.trans hq) hv ha hrep hl hr
  | givenUp front last hq ha hrep hl hg hr =>
    exact .givenUp front last (fun q h => hq q (hp.subset h)) ha hrep hl hg hr
  | succeeded front last hq ha hrep hl hs =>
    exact .succeeded front last (fun q h => hq q (hp.subset h)) ha hrep hl hs

/-- A campaign begins without a call. -/
theorem start {s : Strategy} (ht : s.Trail early fallen) :
    Campaign early fallen retries again [] [] [.initial] :=
  .trying .initial (.refl _) ht.start ⟨fun _ hv => absurd hv List.not_mem_nil,
    fun h => absurd rfl h, Nat.zero_le _⟩ rfl

/-- What a stage on a trail may ask for, if nothing is in the cache, or what is asked for it when
its handler breaks. -/
def Allowed (retries : Nat) (again : Bool) (results : List Verdict) (q : Stage) (m : Move) : Prop :=
  Phase.Allowed q m ∧ (q = .getFromCache → m = .follow false) ∧
    (q = .resolveError → m = Stages.resolution retries again results)

theorem filter_append_route (next : List Stage)
    (hr : (results.filter fun v => !v.isRoute) = attempts) :
    ((results ++ [Verdict.route next]).filter fun v => !v.isRoute) = attempts := by
  rw [List.filter_append, hr]
  exact List.append_nil _

section
variable (hrep : Repeated retries again attempts)
  (hr : (results.filter fun v => !v.isRoute) = attempts)
include hrep hr

/-- The task goes on to a stage before the network. -/
theorem routed {q r : Stage} (hearly : early r) :
    Campaign early fallen retries again (attempts ++ attempt? q (.route [r]))
      (results ++ [.route [r]]) [r] := by
  have hnone : attempt? q (.route [r]) = [] := if_neg fun h => Bool.noConfusion h.2
  rw [hnone, List.append_nil]
  exact .trying r (.refl _) hearly hrep (filter_append_route [r] hr)

/-- The call has failed. -/
theorem broken {r : Stage} (error : CallError) (hfallen : fallen r) :
    Campaign early fallen retries again (attempts ++ attempt? .getFromNet (.failure error [r]))
      (results ++ [.failure error [r]]) [r] := by
  have hone : attempt? .getFromNet (.failure error [r]) = [.failure error [r]] := if_pos ⟨rfl, rfl⟩
  rw [hone]
  refine .failed r attempts _ (.refl _) hfallen rfl hrep rfl ?_
  rw [List.filter_append, hr]
  rfl

/-- The call has brought a result. -/
theorem answered {next : List Stage} (payload : Json) (raw : Option String)
    (hnext : next = [.deliverResult] ∨ next = [.deliverResult, .saveToCache]) :
    Campaign early fallen retries again
      (attempts ++ attempt? .getFromNet (.success payload raw next))
      (results ++ [.success payload raw next]) next := by
  have hone : attempt? .getFromNet (.success payload raw next) = [.success payload raw next] :=
    if_pos ⟨rfl, rfl⟩
  -- there was no result before
  have hno : results.filter Verdict.isSuccess = [] := by
    rw [List.filter_eq_nil_iff]
    intro v hv
    rw [not_isSuccess_of_failures hr hrep.failures v hv]
    exact Bool.false_ne_true
  rw [hone]
  refine .succeeded attempts _ (fun x hx => ?_) rfl hrep rfl ?_
  · rcases hnext with rfl | rfl
    · exact .inl (List.mem_singleton.1 hx)
    · exact (List.mem_cons.1 hx).imp_right List.mem_singleton.1
  · rw [List.filter_append, hno]
    rfl

/-- A campaign on its way to the network goes on. -/
theorem use_trying {s : Strategy} (ht : s.Trail early fallen) {q : Stage} (hq : early q) {m : Move}
    (hm : Allowed retries again results q m) :
    Campaign early fallen retries again (attempts ++ attempt? q (m.verdict s q))
      (results ++ [m.verdict s q]) (m.verdict s q).next := by
  obtain ⟨hm, hmiss, -⟩ := hm
  rcases ht.before q hq with rfl | rfl | rfl | rfl
  · obtain ⟨r, hnext, hearly⟩ := ht.initial
    rw [hm.follows (.inl rfl), Move.verdict, hnext]
    exact routed hrep hr hearly
  · obtain ⟨r, hnext, hearly⟩ := ht.authorized
    rw [hm.follows (.inr (.inl rfl)), Move.verdict, hnext]
    exact routed hrep hr hearly
  · obtain ⟨r, hnext, hearly⟩ := ht.miss hq
    rw [hmiss rfl, Move.verdict, hnext]
    exact routed hrep hr hearly
  · obtain ⟨r, hnext, hfallen⟩ := ht.failed
    rcases hm with (⟨payload, raw, rfl⟩ | ⟨error, rfl⟩ | rfl) | ⟨error, rfl, -, -⟩
    · exact answered hrep hr payload raw ht.answered
    · simp only [Move.verdict, hnext]
      exact broken hrep hr error hfallen
    · exact routed hrep hr ht.net
    · simp only [Move.verdict, hnext]
      exact broken hrep hr error hfallen

end

/-- What a failed call and those before it amount to. -/
theorem repeats_eq {front : List Verdict} {last : Verdict} (hrep : Repeated retries again front)
    (hl : last.isFailure = true)
    (hr : (results.filter fun v => !v.isRoute) = front ++ [last]) :
    Stages.repeats retries again results =
      (again && last.isNetworkFailure && decide (front.length + 1 ≤ retries)) := by
  have hlast : lastFailureOf results = some last := by
    rw [← lastFailureOf_filter, hr, lastFailureOf, List.reverse_append]
    simp [hl]
  have hfront : front.countP Verdict.isNetworkFailure = front.length :=
    List.countP_eq_length.2 hrep.network
  have hcount : results.countP Verdict.isNetworkFailure =
      front.length + if last.isNetworkFailure = true then 1 else 0 := by
    rw [← countP_isNetworkFailure_filter, hr, List.countP_append, hfront, List.countP_singleton]
  rw [Stages.repeats, hlast, hcount, Option.any_some]
  cases last.isNetworkFailure <;> simp

/-- After a failed call the campaign goes on or is given up. -/
theorem use_failed {s : Strategy} (ht : s.Trail early fallen) {q : Stage} (hq : fallen q)
    {front : List Verdict} {last : Verdict} (hrep : Repeated retries again front)
    (hl : last.isFailure = true) (hr : (results.filter fun v => !v.isRoute) = front ++ [last])
    {m : Move} (hm : Allowed retries again results q m) :
    Campaign early fallen retries again (front ++ [last]) (results ++ [m.verdict s q])
      (m.verdict s q).next := by
  obtain ⟨-, hmiss, hresolve⟩ := hm
  rcases ht.after q hq with rfl | rfl
  · obtain ⟨r, hnext, hr'⟩ := ht.missAgain hq
    rw [hmiss rfl, Move.verdict, hnext]
    exact .failed r front last (.refl _) hr' rfl hrep hl (filter_append_route [r] hr)
  · have hrepeats := repeats_eq hrep hl hr
    rw [hresolve rfl, Stages.resolution, Move.verdict]
    cases hagain : Stages.repeats retries again results with
    | true =>
      rw [hagain, eq_comm, Bool.and_eq_true, Bool.and_eq_true, decide_eq_true_eq] at hrepeats
      obtain ⟨⟨hagain', hnet⟩, hlength⟩ := hrepeats
      refine .trying .getFromNet (.refl _) ht.net ⟨fun v hv => ?_, fun _ => hagain', ?_⟩
        (filter_append_route _ hr)
      · rcases List.mem_append.1 hv with hv | hv
        · exact hrep.network v hv
        · exact List.mem_singleton.1 hv ▸ hnet
      · rw [List.length_append]
        exact hlength
    | false =>
      refine .givenUp front last (fun x hx => List.mem_singleton.1 hx) rfl hrep hl (fun ha hn => ?_)
        (filter_append_route _ hr)
      rw [hagain, ha, hn] at hrepeats
      have hle := hrep.length
      have hgt : ¬ front.length + 1 ≤ retries := by simpa using hrepeats.symm
      omega

/-- **Every move leads from one point of a campaign to another.** -/
theorem use {s : Strategy} (ht : s.Trail early fallen)
    (h : Campaign early fallen retries again attempts results ahead) {q : Stage} (hq : q ∈ ahead)
    {m : Move} (hm : Allowed retries again results q m) :
    Campaign early fallen retries again (attempts ++ attempt? q (m.verdict s q))
      (results ++ [m.verdict s q]) (ahead.erase q ++ (m.verdict s q).next) := by
  -- no call was made
  have hnone : q ≠ .getFromNet → attempt? q (m.verdict s q) = [] := fun hne =>
    if_neg fun h => hne h.1
  cases h with
  | trying q' hperm hearly hrep hr =>
    obtain ⟨rfl, herase⟩ := erase_of_perm_singleton hperm hq
    rw [herase, List.nil_append]
    exact use_trying hrep hr ht hearly hm
  | failed q' front last hperm hfallen ha hrep hl hr =>
    obtain ⟨rfl, herase⟩ := erase_of_perm_singleton hperm hq
    have hne : q ≠ .getFromNet := by
      rcases ht.after q hfallen with rfl | rfl <;> decide
    subst ha
    rw [herase, List.nil_append, hnone hne, List.append_nil]
    exact use_failed ht hfallen hrep hl hr hm
  | givenUp front last hall ha hrep hl hg hr =>
    cases hall q hq
    rw [hnone (by decide), List.append_nil, hm.1.follows (.inr (.inr rfl)), Move.verdict,
      Verdict.next, (ht.last true).2.1, List.append_nil]
    exact .givenUp front last (fun x hx => hall x (List.mem_of_mem_erase hx)) ha hrep hl hg
      (filter_append_route _ hr)
  | succeeded front last hall ha hrep hl hs =>
    have hne : q ≠ .getFromNet := by
      rcases hall q hq with rfl | rfl <;> decide
    obtain ⟨hnext, hno⟩ := Phase.ends_of_succeeded ht.last (hall q hq) hm.1
    rw [hnone hne, List.append_nil, hnext, List.append_nil]
    refine .succeeded front last (fun x hx => hall x (List.mem_of_mem_erase hx)) ha hrep hl ?_
    rw [List.filter_append, hs, List.filter_singleton, hno]
    rfl

/-- **When nothing lies ahead, the last call has decided**: all calls before it have failed in the
transport and were repeated; it has brought the only result, or it is the last failure and could not
be repeated. -/
theorem outcome (h : Campaign early fallen retries again attempts results []) :
    ∃ front last, attempts = front ++ [last] ∧ Repeated retries again front ∧
      (again = true → last.isNetworkFailure = true → front.length = retries) ∧
      (last.isSuccess = true ∧ (∀ v ∈ results, v.isSuccess = true → v = last) ∧ last ∈ results ∨
        (∀ v ∈ results, v.isSuccess = false) ∧ lastFailureOf results = some last) := by
  cases h with
  | trying q hperm => exact absurd hperm.symm.eq_nil (by simp)
  | failed q front last hperm => exact absurd hperm.symm.eq_nil (by simp)
  | givenUp front last hall ha hrep hl hg hr =>
    have hfailures : ∀ v ∈ attempts, v.isFailure = true := by
      intro v hv
      rw [ha, List.mem_append, List.mem_singleton] at hv
      rcases hv with hv | rfl
      · exact hrep.failures v hv
      · exact hl
    refine ⟨front, last, ha, hrep, hg, .inr ⟨not_isSuccess_of_failures hr hfailures, ?_⟩⟩
    rw [← lastFailureOf_filter, hr, ha, lastFailureOf, List.reverse_append]
    simp [hl]
  | succeeded front last hall ha hrep hl hs =>
    have hmem : ∀ v, v ∈ results ∧ v.isSuccess = true ↔ v = last := fun v => by
      rw [← List.mem_filter, hs, List.mem_singleton]
    refine ⟨front, last, ha, hrep, fun _ hn => ?_, .inl ⟨hl, fun v hv hvs => (hmem v).1 ⟨hv, hvs⟩,
      ((hmem last).2 rfl).1⟩⟩
    rw [Verdict.not_isSuccess_of_isFailure (Verdict.isFailure_of_isNetworkFailure hn)] at hl
    exact Bool.noConfusion hl

end Campaign
end RpcFlow
