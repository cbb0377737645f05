import RpcFlow.CallError
import RpcFlow.Strategy.Merged

/-!
# Verdicts

A stage ends with a verdict: a result, a failure, or a mere choice of way.  Every verdict names the
stages its task goes to next, usually those that the strategy gives for the outcome.

* `Move` is what a stage handler asks for, `Move.verdict` the verdict it amounts to.
* `Verdict.result` is what a caller gets when a verdict is delivered.
-/

set_option autoImplicit false

namespace RpcFlow

/-- The outcome of a stage for one task. -/
inductive Verdict where
  /-- Only a choice of way; never the result of a task. -/
  | route (next : List Stage)
  /-- A result, with its text as it may be cached. -/
  | success (payload : Json) (raw : Option String) (next : List Stage)
  | failure (error : CallError) (next : List Stage)
  deriving DecidableEq, Repr

namespace Verdict

/-- The stages the task goes to. -/
def next : Verdict → List Stage
  | route next => next
  | success _ _ next => next
  | failure _ next => next

def isRoute : Verdict → Bool
  | route _ => true
  | _ => false

def isSuccess : Verdict → Bool
  | success .. => true
  | _ => false

def isFailure : Verdict → Bool
  | failure .. => true
  | _ => false

/-- A failure of the transport itself. -/
def isNetworkFailure : Verdict → Bool
  | failure error _ => error.isNetwork
  | _ => false

/-- What a caller gets. -/
def result : Verdict → Except CallError Json
  | success payload _ _ => .ok payload
  | failure error _ => .error error
  | route _ => .error (.interrupted "routing verdict delivered as a result")

end Verdict

/-- What a handler asks for a task. -/
inductive Move where
  /-- Records a result and follows the way of success. -/
  | succeed (payload : Json) (raw : Option String)
  /-- Records a failure and follows the way of failure. -/
  | fail (error : CallError)
  /-- Follows one of the two ways. -/
  | follow (success : Bool)
  /-- Goes to the given stages, whatever the strategy says. -/
  | goTo (next : List Stage)
  deriving DecidableEq, Repr

/-- The verdict a move amounts to in a stage. -/
def Move.verdict (strategy : Strategy) (stage : Stage) : Move → Verdict
  | succeed payload raw => .success payload raw (strategy.next stage true)
  | fail error => .failure error (strategy.next stage false)
  | follow success => .route (strategy.next stage success)
  | goTo next => .route next

end RpcFlow
