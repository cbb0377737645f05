import Mathlib.Algebra.GroupWithZero.Nat
import RpcFlow.Proofs.Engine.Campaigns

/-!
# How far a task has to go

Under a merge of presets a task may come back to the network, but each time it has to: a call has failed
in the transport, and one less is left of the budget.  So the stages ahead of a task can be given weights
that fall with every move, except when a call is put off.

* `Stages.callsLeft`, `Stages.callDue` — what the calls weigh that may still be repeated.
* `Preset.distance`, `Preset.distances` — the weight of a stage, and of all stages ahead.
* `Phase.distances_lt` — **every move of a built-in stage brings a task nearer to its end**, but for
  `Phase.distances_eq`: a call that is put off leaves it where it is.
-/

set_option autoImplicit false

namespace RpcFlow

namespace Stages

variable {v : Verdict}

/-- What the calls weigh that the budget leaves. -/
def callsLeft (retries : Nat) (results : List Verdict) : Nat :=
  3 * (retries + 1 - results.countP Verdict.isNetworkFailure)

/-- What the call weighs that has just failed, if it may be repeated. -/
def callDue (retries : Nat) (results : List Verdict) : Nat :=
  if repeats retries true results then 3 else 0

/-- A verdict that is not a failure uses up no call. -/
theorem calls_append (retries : Nat) (results : List Verdict) (h : v.isFailure = false) :
    callsLeft retries (results ++ [v]) = callsLeft retries results ∧
      callDue retries (results ++ [v]) = callDue retries results := by
  have hnet : v.isNetworkFailure = false := by
    cases v <;> first | rfl | exact Bool.noConfusion h
  have hcount : (results ++ [v]).countP Verdict.isNetworkFailure =
      results.countP Verdict.isNetworkFailure := by
    rw [List.countP_append, List.countP_singleton, hnet]
    rfl
  refine ⟨by rw [callsLeft, callsLeft, hcount], ?_⟩
  rw [callDue, callDue, repeats, repeats, lastFailureOf_append_of_not h, hcount]

/-- A failure uses up a call, whether or not there will be another. -/
theorem callsLeft_failure (retries : Nat) (results : List Verdict) (error : CallError)
    (next : List Stage) :
    callsLeft retries (results ++ [.failure error next]) +
      callDue retries (results ++ [.failure error next]) ≤ callsLeft retries results := by
  rw [callDue, repeats, lastFailureOf_append_failure, callsLeft, callsLeft, List.countP_append,
    List.countP_singleton]
  cases hnet : Verdict.isNetworkFailure (.failure error next) with
  | false => simp [hnet]
  | true =>
    simp only [hnet, Option.any_some, Bool.true_and, if_true, decide_eq_true_eq]
    split <;> omega

end Stages

namespace Preset

open Stages

/-- How far the end is from a stage, after some verdicts. -/
def distance (p : Preset) (retries : Nat) (results : List Verdict) : Stage → Nat
  | .initial => callsLeft retries results + 7
  | .checkAuthToken => callsLeft retries results + 6
  | .getFromCache =>
    -- under one preset the cache comes after a failure of the network, under the others before it
    if p = priorityRequest then callsLeft retries results + callDue retries results + 3
    else callsLeft retries results + 5
  | .getFromNet => callsLeft retries results + 4
  | .resolveError => callsLeft retries results + callDue retries results + 2
  | .saveToCache | .deliverResult | .deliverError => 1

/-- How far the end is from all stages ahead. -/
def distances (p : Preset) (retries : Nat) (results : List Verdict) (ahead : List Stage) : Nat :=
  (ahead.map (p.distance retries results)).sum

variable {p : Preset} {s : Strategy} {retries : Nat} {results results' : List Verdict}

theorem distances_perm {ahead ahead' : List Stage} (h : ahead'.Perm ahead) :
    p.distances retries results ahead' = p.distances retries results ahead :=
  (h.map _).sum_nat

theorem distances_singleton (q : Stage) :
    p.distances retries results [q] = p.distance retries results q :=
  Nat.add_zero _

theorem distance_append {v : Verdict} (h : v.isFailure = false) :
    p.distance retries (results ++ [v]) = p.distance retries results := by
  obtain ⟨hleft, hdue⟩ := calls_append retries results h
  funext q
  cases q <;> simp only [distance, hleft, hdue]

/-- The end is not reached before the last stage has been. -/
theorem distance_pos (q : Stage) : 0 < p.distance retries results q := by
  cases q with
  | getFromCache => simp only [distance]; split <;> exact Nat.succ_pos _
  | _ => exact Nat.succ_pos _

/-- Every preset that reaches the network begins there or with a look into the cache. -/
theorem Follows.nearer_initial (h : p.Follows s) : ∃ r, s.next .initial true = [r] ∧
    ∀ retries results, p.distance retries results r < p.distance retries results .initial := by
  have hnet : ∀ retries results,
      p.distance retries results .getFromNet < p.distance retries results .initial :=
    fun retries results => by simp only [distance]; omega
  rcases h.initial with hf | hf
  · rw [hf]
    rcases eq_of_reachesNet h.net with rfl | rfl | rfl | rfl
    · exact ⟨.getFromNet, rfl, hnet⟩
    · exact ⟨.getFromNet, rfl, hnet⟩
    · exact ⟨.getFromNet, rfl, hnet⟩
    · refine ⟨.getFromCache, rfl, fun retries results => ?_⟩
      simp [distance]
  · exact ⟨.checkAuthToken, hf, fun retries results => by simp only [distance]; omega⟩

theorem Follows.nearer_authorized (h : p.Follows s) : ∃ r, s.next .checkAuthToken true = [r] ∧
    ∀ retries results, p.distance retries results r < p.distance retries results .checkAuthToken := by
  have hnet : ∀ retries results,
      p.distance retries results .getFromNet < p.distance retries results .checkAuthToken :=
    fun retries results => by simp only [distance]; omega
  rcases eq_of_reachesNet h.net with rfl | rfl | rfl | rfl
  · exact ⟨.getFromNet, h.next .checkAuthToken _ true (by decide) rfl, hnet⟩
  · exact ⟨.getFromNet, h.next .checkAuthToken _ true (by decide) rfl, hnet⟩
  · exact ⟨.getFromNet, h.next .checkAuthToken _ true (by decide) rfl, hnet⟩
  · refine ⟨.getFromCache, h.next .checkAuthToken _ true (by decide) rfl, fun retries results => ?_⟩
    simp [distance]

/-- After a look into the cache in vain, the task is nearer to its end if no call is gained. -/
theorem Follows.nearer_miss (h : p.Follows s) (hv : p.Visits .getFromCache) :
    ∃ r, s.next .getFromCache false = [r] ∧ ∀ retries results results',
      callsLeft retries results' ≤ callsLeft retries results →
      callsLeft retries results' + callDue retries results' ≤
        callsLeft retries results + callDue retries results →
      p.distance retries results' r < p.distance retries results .getFromCache := by
  rcases hv with rfl | rfl
  · refine ⟨.resolveError, h.next .getFromCache _ false (by decide) rfl, ?_⟩
    intro retries results results' _ hle
    rw [distance, distance, if_pos rfl]
    omega
  · refine ⟨.getFromNet, h.next .getFromCache _ false (by decide) rfl, ?_⟩
    intro retries results results' hle _
    rw [distance, distance, if_neg (by decide)]
    omega

/-- After a failure of the network, the task is nearer to its end if the failure uses up a call. -/
theorem Follows.nearer_failed (h : p.Follows s) : ∃ r, s.next .getFromNet false = [r] ∧
    ∀ retries results results', callsLeft retries results' + callDue retries results' ≤
      callsLeft retries results →
      p.distance retries results' r < p.distance retries results .getFromNet := by
  have hresolve : ∀ retries results results',
      callsLeft retries results' + callDue retries results' ≤ callsLeft retries results →
      p.distance retries results' .resolveError < p.distance retries results .getFromNet :=
    fun retries results results' hle => by simp only [distance]; omega
  rcases eq_of_reachesNet h.net with rfl | rfl | rfl | rfl
  · exact ⟨.resolveError, h.next .getFromNet _ false (by decide) rfl, hresolve⟩
  · exact ⟨.resolveError, h.next .getFromNet _ false (by decide) rfl, hresolve⟩
  · refine ⟨.getFromCache, h.next .getFromNet _ false (by decide) rfl, ?_⟩
    intro retries results results' hle
    rw [distance, if_pos rfl, distance]
    omega
  · exact ⟨.resolveError, h.next .getFromNet _ false (by decide) rfl, hresolve⟩

end Preset

namespace Phase

open Stages

variable {p : Preset} {s : Strategy} {retries : Nat} {results delivered : List Verdict}
  {ahead : List Stage} {q : Stage} {m : Move}

/-- **A call that is put off leaves its task where it is.** -/
theorem distances_eq (hq : Stage.getFromNet ∈ ahead) :
    p.distances retries (results ++ [.route [.getFromNet]])
      (ahead.erase .getFromNet ++ [.getFromNet]) = p.distances retries results ahead := by
  have hperm : (ahead.erase .getFromNet ++ [Stage.getFromNet]).Perm ahead :=
    List.perm_append_comm.trans (List.perm_cons_erase hq).symm
  rw [Preset.distances_perm hperm, Preset.distances, Preset.distance_append rfl]
  rfl

/-- The one stage ahead of a task without a result brings it nearer to its end. -/
theorem distances_lt_trying (hf : p.Follows s) (hvis : p.Visits q) (hm : Allowed q m)
    (hrepeat : q = .resolveError → m = .goTo [.getFromNet] → repeats retries true results = true)
    (hoff : q = .getFromNet → m ≠ .goTo [.getFromNet]) :
    p.distances retries (results ++ [m.verdict s q]) (m.verdict s q).next <
      p.distance retries results q := by
  -- a result is delivered, and written to the cache at most
  have hanswered : ∀ (payload : Json) (raw : Option String) (next : List Stage),
      next = [.deliverResult] ∨ next = [.deliverResult, .saveToCache] →
      p.distances retries (results ++ [.success payload raw next]) next ≤ 2 := by
    rintro payload raw next (rfl | rfl) <;> simp [Preset.distances, Preset.distance]
  cases q with
  | initial =>
    obtain ⟨r, hr, hlt⟩ := hf.nearer_initial
    rw [hm.follows (.inl rfl), Move.verdict, hr, Verdict.next, Preset.distances_singleton,
      Preset.distance_append rfl]
    exact hlt retries results
  | checkAuthToken =>
    obtain ⟨r, hr, hlt⟩ := hf.nearer_authorized
    rw [hm.follows (.inr (.inl rfl)), Move.verdict, hr, Verdict.next, Preset.distances_singleton,
      Preset.distance_append rfl]
    exact hlt retries results
  | getFromCache =>
    obtain ⟨r, hr, hlt⟩ := hf.nearer_miss hvis
    rcases hm with (⟨payload, raw, rfl⟩ | rfl) | ⟨error, rfl, -, -⟩
    · simp only [Move.verdict, Verdict.next]
      refine Nat.lt_of_le_of_lt (hanswered payload raw _ (.inl (hf.course.hit hvis))) ?_
      simp only [Preset.distance]
      split <;> omega
    · simp only [Move.verdict, Verdict.next, hr, Preset.distances_singleton,
        Preset.distance_append (v := .route [r]) rfl]
      exact hlt _ _ _ (Nat.le_refl _) (Nat.le_refl _)
    · have hle := callsLeft_failure retries results error [r]
      simp only [Move.verdict, Verdict.next, hr, Preset.distances_singleton]
      exact hlt _ _ _ (by omega) (by omega)
  | getFromNet =>
    obtain ⟨r, hr, hlt⟩ := hf.nearer_failed
    have hfail : ∀ error, p.distances retries
        (results ++ [Move.verdict s .getFromNet (.fail error)])
        (Move.verdict s .getFromNet (.fail error)).next < p.distance retries results .getFromNet := by
      intro error
      simp only [Move.verdict, Verdict.next, hr, Preset.distances_singleton]
      exact hlt _ _ _ (callsLeft_failure retries results error [r])
    rcases hm with (⟨payload, raw, rfl⟩ | ⟨error, rfl⟩ | rfl) | ⟨error, rfl, -, -⟩
    · simp only [Move.verdict, Verdict.next]
      refine Nat.lt_of_le_of_lt (hanswered payload raw _ hf.course.answered) ?_
      simp only [Preset.distance]
      omega
    · exact hfail error
    · exact absurd rfl (hoff rfl)
    · exact hfail error
  | resolveError =>
    rcases hm with (rfl | rfl) | ⟨error, -, hb, -⟩
    · have hdue : callDue retries results = 3 := by rw [callDue, if_pos (hrepeat rfl rfl)]
      rw [Move.verdict, Verdict.next, Preset.distances_singleton, Preset.distance_append rfl]
      simp only [Preset.distance, hdue]
      omega
    · rw [Move.verdict, Verdict.next, Preset.distances_singleton]
      simp only [Preset.distance]
      omega
    · exact absurd hb (by simp [Stages.MayBreak])
  | deliverError =>
    rw [hm.follows (.inr (.inr rfl)), Move.verdict, (hf.course.last true).2.1]
    exact Preset.distance_pos .deliverError
  | deliverResult => exact hvis.elim
  | saveToCache => exact hvis.elim

/-- **Every move brings a task nearer to its end**, if calls are repeated only within the budget, and
but for calls that are put off. -/
theorem distances_lt (hf : p.Follows s) (h : Phase p.Visits p.Late results delivered ahead)
    (hq : q ∈ ahead) (hm : Allowed q m)
    (hrepeat : q = .resolveError → m = .goTo [.getFromNet] → repeats retries true results = true)
    (hoff : q = .getFromNet → m ≠ .goTo [.getFromNet]) :
    p.distances retries (results ++ [m.verdict s q]) (ahead.erase q ++ (m.verdict s q).next) <
      p.distances retries results ahead := by
  cases h with
  | failed ha => exact absurd hq (ha ▸ List.not_mem_nil)
  | trying q' hperm hvis =>
    obtain ⟨rfl, herase⟩ := erase_of_perm_singleton hperm hq
    rw [herase, List.nil_append, Preset.distances_perm hperm, Preset.distances_singleton]
    exact distances_lt_trying hf hvis hm hrepeat hoff
  | succeeded hs hall =>
    -- what is ahead of a task with a result is as far from its end whatever is recorded
    have hsame : ∀ x ∈ ahead.erase q,
        p.distance retries (results ++ [m.verdict s q]) x = p.distance retries results x := by
      intro x hx
      rcases hall x (List.mem_of_mem_erase hx) with rfl | rfl <;> rfl
    rw [(ends_of_succeeded hf.course.last (hall q hq) hm).1, List.append_nil, Preset.distances,
      List.map_congr_left hsame, Preset.distances_perm (List.perm_cons_erase hq)]
    exact Nat.lt_add_of_pos_left (Preset.distance_pos q)

end Phase
end RpcFlow
