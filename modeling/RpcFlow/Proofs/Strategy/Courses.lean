import RpcFlow.Strategy.Merged

/-!
# The courses that merged presets allow

However presets are merged, the routes that a task can come across are those of one of the four
presets that reach the network: the last of them in the list.  The other two presets only put the
check of the authorization in front or set a flag.

* `Strategy.Course s visits late` — every way through the stages leads to a delivery: `visits` are
  the stages that a task without a result may come to, `late` those it comes to only after a
  failure.
* `Preset.Follows` — what a merge takes over from the preset that decides it.
* `Preset.exists_course` — every merge of presets that reaches the network has a course.
-/

set_option autoImplicit false

namespace RpcFlow

/-- The presets whose tables reach the network. -/
def Preset.reachesNet : Preset → Bool
  | noCache | requestExcludeCache | priorityRequest | priorityCache => true
  | retryIfNoNetwork | authorizedRequest => false

namespace Strategy

/-- A strategy under which no task without a result comes to an end before its error is delivered,
and no task comes to the delivery of a result without one. -/
structure Course (s : Strategy) (visits late : Stage → Prop) : Prop where
  start : visits .initial ∧ ¬late .initial
  initial : ∃ q, s.next .initial true = [q] ∧ visits q ∧ ¬late q
  authorized : ∃ q, s.next .checkAuthToken true = [q] ∧ visits q ∧ ¬late q
  hit : visits .getFromCache → s.next .getFromCache true = [.deliverResult]
  miss : visits .getFromCache →
    ∃ q, s.next .getFromCache false = [q] ∧ visits q ∧ (late q → late .getFromCache)
  answered : s.next .getFromNet true = [.deliverResult] ∨
    s.next .getFromNet true = [.deliverResult, .saveToCache]
  failed : ∃ q, s.next .getFromNet false = [q] ∧ visits q
  net : visits .getFromNet
  resolve : late .resolveError
  error : visits .deliverError ∧ late .deliverError
  result : ¬visits .deliverResult
  saved : ¬visits .saveToCache
  last : ∀ b, s.next .deliverResult b = [] ∧ s.next .deliverError b = [] ∧ s.next .saveToCache b = []

end Strategy

namespace Preset

theorem eq_of_reachesNet {p : Preset} (h : p.reachesNet = true) :
    p = noCache ∨ p = requestExcludeCache ∨ p = priorityRequest ∨ p = priorityCache := by
  cases p with
  | noCache => exact .inl rfl
  | requestExcludeCache => exact .inr (.inl rfl)
  | priorityRequest => exact .inr (.inr (.inl rfl))
  | priorityCache => exact .inr (.inr (.inr rfl))
  | retryIfNoNetwork => exact Bool.noConfusion h
  | authorizedRequest => exact Bool.noConfusion h

/-- The decision for a stage after tables were merged, the last table first. -/
def decides (l : List Preset) (stage : Stage) : Option Decision :=
  l.findSome? fun p => p.table.routes stage

/-- No preset says where to go from the last stages. -/
theorem decides_last (l : List Preset) (stage : Stage)
    (h : ∀ p : Preset, p.table.routes stage = none) : decides l stage = none := by
  rw [decides, List.findSome?_eq_none_iff]
  exact fun p _ => h p

/-- The last preset that reaches the network decides every stage that it decides at all, except that
the first stage may lead to the check of the authorization. -/
theorem exists_decides (l : List Preset) (h : ∃ p ∈ l, p.reachesNet = true) :
    ∃ p : Preset, p.reachesNet = true ∧
      (∀ stage d, stage ≠ .initial → p.table.routes stage = some d → decides l stage = some d) ∧
      (decides l .initial = p.table.routes .initial ∨
        decides l .initial = some (.only .checkAuthToken)) := by
  induction l with
  | nil =>
    obtain ⟨p, hp, -⟩ := h
    exact absurd hp List.not_mem_nil
  | cons x l ih =>
    by_cases hx : x.reachesNet = true
    · -- this is the last one
      have hinit : (x.table.routes .initial).isSome = true := by
        cases x <;> first | rfl | exact absurd hx (by decide)
      obtain ⟨d, hd⟩ := Option.isSome_iff_exists.1 hinit
      refine ⟨x, hx, fun stage d _ hs => ?_, .inl ?_⟩
      · rw [decides, List.findSome?_cons, hs]
      · rw [decides, List.findSome?_cons, hd]
    · obtain ⟨p, hp, hrest, hinit⟩ := ih (by
        obtain ⟨q, hq, hqr⟩ := h
        rcases List.mem_cons.1 hq with rfl | hq
        · exact absurd hqr hx
        · exact ⟨q, hq, hqr⟩)
      have hnone : ∀ stage, stage ≠ .initial → x.table.routes stage = none := by
        intro stage hs
        cases x with
        | authorizedRequest => exact if_neg hs
        | retryIfNoNetwork => rfl
        | _ => exact absurd rfl hx
      refine ⟨p, hp, fun stage d hs hd => ?_, ?_⟩
      · rw [decides, List.findSome?_cons, hnone stage hs]
        exact hrest stage d hs hd
      · cases hi : x.table.routes .initial with
        | none => rwa [decides, List.findSome?_cons, hi]
        | some d =>
          right
          rw [decides, List.findSome?_cons, hi]
          cases x with
          | authorizedRequest => cases hi; rfl
          | retryIfNoNetwork => cases hi
          | _ => exact absurd rfl hx

theorem next_merge (presets : List Preset) (cell : Nat) (stage : Stage) (success : Bool) :
    (Strategy.merge (presets.map Preset.table) cell).next stage success =
      ((decides presets.reverse stage).map fun d => d.after success).getD [] := by
  rw [Strategy.next, Strategy.routes_merge, decides, ← List.map_reverse, List.findSome?_map]
  rfl

/-- A strategy that goes the way of a preset, except that its first stage may lead to the check of
the authorization. -/
structure Follows (p : Preset) (s : Strategy) : Prop where
  net : p.reachesNet = true
  initial : s.next .initial true = ((p.table.routes .initial).map fun d => d.after true).getD [] ∨
    s.next .initial true = [.checkAuthToken]
  next : ∀ stage d success, stage ≠ .initial → p.table.routes stage = some d →
    s.next stage success = d.after success
  last : ∀ stage success, (∀ q : Preset, q.table.routes stage = none) → s.next stage success = []

/-- Every merge of presets that reaches the network goes the way of one of them. -/
theorem exists_follows (presets : List Preset) (cell : Nat)
    (h : ∃ p ∈ presets, p.reachesNet = true) :
    ∃ p : Preset, p.Follows (Strategy.merge (presets.map Preset.table) cell) := by
  obtain ⟨p, hp, hrest, hinit⟩ := exists_decides presets.reverse (by simpa using h)
  refine ⟨p, hp, ?_, fun stage d success hs hd => ?_, fun stage success hn => ?_⟩
  · rw [next_merge]
    exact hinit.imp (fun h => by rw [h]) fun h => by rw [h]; rfl
  · rw [next_merge, hrest stage d hs hd]
    rfl
  · rw [next_merge, decides_last _ _ hn]
    rfl

/-- The stages that a task without a result may come to under a preset. -/
def Visits (p : Preset) : Stage → Prop
  | .deliverResult | .saveToCache => False
  | .getFromCache => p = priorityRequest ∨ p = priorityCache
  | _ => True

/-- The stages that it comes to after a failure only. -/
def Late (p : Preset) : Stage → Prop
  | .resolveError | .deliverError => True
  | .getFromCache => p = priorityRequest
  | _ => False

theorem Follows.course {p : Preset} {s : Strategy} (h : p.Follows s) : s.Course p.Visits p.Late := by
  refine {
    start := ⟨trivial, id⟩, initial := ?initial, authorized := ?authorized, hit := ?hit,
    miss := ?miss, answered := ?answered, failed := ?failed, net := trivial, resolve := trivial,
    error := ⟨trivial, trivial⟩, result := id, saved := id, last := ?last }
  case initial =>
    rcases h.initial with hf | hf
    · rw [hf]
      rcases eq_of_reachesNet h.net with rfl | rfl | rfl | rfl
      · exact ⟨.getFromNet, rfl, trivial, id⟩
      · exact ⟨.getFromNet, rfl, trivial, id⟩
      · exact ⟨.getFromNet, rfl, trivial, id⟩
      · exact ⟨.getFromCache, rfl, .inr rfl, fun h => by cases h⟩
    · exact ⟨.checkAuthToken, hf, trivial, id⟩
  case authorized =>
    rcases eq_of_reachesNet h.net with rfl | rfl | rfl | rfl
    · exact ⟨.getFromNet, h.next .checkAuthToken _ true (by decide) rfl, trivial, id⟩
    · exact ⟨.getFromNet, h.next .checkAuthToken _ true (by decide) rfl, trivial, id⟩
    · exact ⟨.getFromNet, h.next .checkAuthToken _ true (by decide) rfl, trivial, id⟩
    · exact ⟨.getFromCache, h.next .checkAuthToken _ true (by decide) rfl, .inr rfl,
        fun h => by cases h⟩
  case hit =>
    rintro (rfl | rfl)
    · exact h.next .getFromCache _ true (by decide) rfl
    · exact h.next .getFromCache _ true (by decide) rfl
  case miss =>
    rintro (rfl | rfl)
    · exact ⟨.resolveError, h.next .getFromCache _ false (by decide) rfl, trivial, fun _ => rfl⟩
    · exact ⟨.getFromNet, h.next .getFromCache _ false (by decide) rfl, trivial, False.elim⟩
  case answered =>
    rcases eq_of_reachesNet h.net with rfl | rfl | rfl | rfl
    · exact .inl (h.next .getFromNet _ true (by decide) rfl)
    · exact .inr (h.next .getFromNet _ true (by decide) rfl)
    · exact .inr (h.next .getFromNet _ true (by decide) rfl)
    · exact .inr (h.next .getFromNet _ true (by decide) rfl)
  case failed =>
    rcases eq_of_reachesNet h.net with rfl | rfl | rfl | rfl
    · exact ⟨.resolveError, h.next .getFromNet _ false (by decide) rfl, trivial⟩
    · exact ⟨.resolveError, h.next .getFromNet _ false (by decide) rfl, trivial⟩
    · exact ⟨.getFromCache, h.next .getFromNet _ false (by decide) rfl, .inl rfl⟩
    · exact ⟨.resolveError, h.next .getFromNet _ false (by decide) rfl, trivial⟩
  case last =>
    intro b
    refine ⟨h.last _ b ?_, h.last _ b ?_, h.last _ b ?_⟩ <;> intro q <;> cases q <;> rfl

/-- **Every merge of presets that reaches the network has a course.** -/
theorem exists_course (presets : List Preset) (cell : Nat)
    (h : ∃ p ∈ presets, p.reachesNet = true) :
    ∃ p : Preset, (Strategy.merge (presets.map Preset.table) cell).Course p.Visits p.Late := by
  obtain ⟨p, hp⟩ := exists_follows presets cell h
  exact ⟨p, hp.course⟩

end Preset
end RpcFlow
