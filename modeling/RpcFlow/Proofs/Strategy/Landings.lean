import RpcFlow.Proofs.Strategy.Courses

/-!
# Strategies that lead to a delivery

A table may send a task anywhere, also nowhere, and into several stages at once.  Whether a task is
delivered to in the end can be read off the routes: it suffices that from every stage on a certain
set, whatever comes of it, the way leads on to another stage on it, until a stage delivers.  Which
stages are on it may depend on whether the task has a result, because only then its delivery
succeeds.

* `Strategy.ways` — what may come of a task in a stage that does not deliver it.
* `Strategy.Lands` — such a set of stages, and `Strategy.Delivers`, that there is one.
* `Strategy.Course.lands`, `Preset.delivers_merge` — presets that reach the network have one.
-/

set_option autoImplicit false

namespace RpcFlow
namespace Strategy

/-- What may come of a task in a stage without a delivery: whether it has a result then, and where
it goes.  `found` says whether it had one before.  Without a result nothing is written to the cache,
and nothing can go wrong there. -/
def ways (s : Strategy) : Stage → Bool → List (Bool × List Stage)
  | .initial, found => [(found, s.next .initial true)]
  | .checkAuthToken, found => [(found, s.next .checkAuthToken true)]
  | .getFromCache, found =>
    [(true, s.next .getFromCache true), (found, s.next .getFromCache false)]
  | .getFromNet, found =>
    [(true, s.next .getFromNet true), (found, s.next .getFromNet false), (found, [.getFromNet])]
  | .resolveError, found => [(found, [.getFromNet]), (found, [.deliverError])]
  | .saveToCache, false => [(false, s.next .saveToCache true)]
  | .saveToCache, true =>
    [(true, s.next .saveToCache true), (true, s.next .saveToCache false)]
  | .deliverResult, false => [(false, s.next .deliverResult false)]
  | .deliverResult, true => []
  | .deliverError, _ => []

/-- From the first stage on, every way leads from a stage that is `on` to another one, until a stage
delivers. -/
structure Lands (s : Strategy) (on : Stage → Bool → Prop) : Prop where
  start : on .initial false
  /-- A stage that is on without a result is on with one, for it may be found meanwhile. -/
  later : ∀ q, on q false → on q true
  goesOn : ∀ q found, on q found → ∀ way ∈ s.ways q found, ∃ r ∈ way.2, on r way.1

/-- Every way through the stages leads to a delivery. -/
def Delivers (s : Strategy) : Prop := ∃ on, s.Lands on

/-- The identity of a strategy has no say in where it leads. -/
theorem Delivers.of_routes {s s' : Strategy} (h : s.Delivers) (hr : s'.routes = s.routes) :
    s'.Delivers := by
  have hnext : ∀ stage success, s'.next stage success = s.next stage success := fun stage success => by
    rw [next, next, hr]
  have hways : ∀ q found, s'.ways q found = s.ways q found := by
    intro q found
    cases q <;> cases found <;> simp only [ways, hnext]
  obtain ⟨on, hon⟩ := h
  exact ⟨on, hon.start, hon.later, fun q found hq => hways q found ▸ hon.goesOn q found hq⟩

/-- A strategy with a course leads to a delivery. -/
theorem Course.delivers {s : Strategy} {visits late : Stage → Prop} (hc : s.Course visits late) :
    s.Delivers := by
  have htwo : ∀ {b : Bool} {q : Stage}, visits q →
      ∃ r ∈ [q], visits r ∨ r = .deliverResult ∧ b = true :=
    fun hq => ⟨_, List.mem_singleton_self _, .inl hq⟩
  refine ⟨fun q found => visits q ∨ q = .deliverResult ∧ found = true,
    .inl hc.start.1, fun q h => h.imp_right fun h => ⟨h.1, rfl⟩, fun q found hq way hway => ?_⟩
  cases q with
  | initial =>
    obtain ⟨r, hr, hv, -⟩ := hc.initial
    rw [ways, hr, List.mem_singleton] at hway
    rw [hway]
    exact htwo hv
  | checkAuthToken =>
    obtain ⟨r, hr, hv, -⟩ := hc.authorized
    rw [ways, hr, List.mem_singleton] at hway
    rw [hway]
    exact htwo hv
  | getFromCache =>
    have hvis : visits .getFromCache := hq.resolve_right fun h => by cases h.1
    obtain ⟨r, hr, hv, -⟩ := hc.miss hvis
    rw [ways, hc.hit hvis, hr] at hway
    simp only [List.mem_cons, List.not_mem_nil, or_false] at hway
    rcases hway with rfl | rfl
    · exact ⟨_, List.mem_cons_self, .inr ⟨rfl, rfl⟩⟩
    · exact htwo hv
  | getFromNet =>
    obtain ⟨r, hr, hv⟩ := hc.failed
    rw [ways, hr] at hway
    simp only [List.mem_cons, List.not_mem_nil, or_false] at hway
    rcases hway with rfl | rfl | rfl
    · refine ⟨.deliverResult, ?_, .inr ⟨rfl, rfl⟩⟩
      rcases hc.answered with h | h
      · exact h ▸ List.mem_cons_self
      · exact h ▸ List.mem_cons_self
    · exact htwo hv
    · exact htwo hc.net
  | resolveError =>
    simp only [ways, List.mem_cons, List.not_mem_nil, or_false] at hway
    rcases hway with rfl | rfl
    · exact htwo hc.net
    · exact htwo hc.error.1
  | saveToCache => exact absurd (hq.resolve_right fun h => by cases h.1) hc.saved
  | deliverError => exact absurd hway List.not_mem_nil
  | deliverResult =>
    obtain ⟨-, rfl⟩ := hq.resolve_left hc.result
    exact absurd hway List.not_mem_nil

end Strategy

/-- **Presets that reach the network lead to a delivery**, however they are merged. -/
theorem Preset.delivers_merge (presets : List Preset) (cell : Nat)
    (h : ∃ p ∈ presets, p.reachesNet = true) :
    (Strategy.merge (presets.map Preset.table) cell).Delivers := by
  obtain ⟨p, hcourse⟩ := exists_course presets cell h
  exact hcourse.delivers

theorem Strategy.delivers_fallback (cell : Nat) : (Strategy.fallback cell).Delivers :=
  Preset.delivers_merge [.noCache] cell ⟨.noCache, List.mem_cons_self, rfl⟩

end RpcFlow
