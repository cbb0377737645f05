import RpcFlow.Config.Basic
import RpcFlow.Message
import RpcFlow.Strategy.Merged

/-!
# Consistent configurations

`Config.problems` lists everything that is wrong with a configuration, in this order: the batch
size, the names that occur again, and then for each method the strategies that do not exist or, if
all exist, a merged strategy that does not lead out of the first stage.

* `Config.validate` accepts a configuration without problems.
* `Config.validationReport` is what the check writes to the log.
-/

set_option autoImplicit false

namespace RpcFlow

/-- The names that occur again after they have occurred, in order. -/
def repeatedNames (seen : List String) : List String → List String
  | [] => []
  | name :: rest =>
    if seen.contains name then name :: repeatedNames seen rest
    else repeatedNames (name :: seen) rest

namespace Config

def sizeProblems (c : Config) : List ConfigProblem :=
  if c.client.maxBatchSize = 0 then [.invalidBatchSize 0] else []

def nameProblems (c : Config) : List ConfigProblem :=
  (repeatedNames [] (c.methods.map c.fullName)).map .duplicateMethod

/-- The strategies of a method that do not exist. -/
def unknownStrategies (c : Config) (m : MethodEntry) : List String :=
  m.strategies.filter fun name => (c.table? name).isNone

/-- Do the strategies of a method, merged, lead out of the first stage? -/
def leavesInitial (c : Config) (m : MethodEntry) : Bool :=
  let merged := Strategy.merge (m.strategies.filterMap c.table?) 0
  !(merged.next .initial true).isEmpty

/-- What is wrong with the strategies of a method; without any it takes the usual one. -/
def strategyProblems (c : Config) (m : MethodEntry) : List ConfigProblem :=
  match c.unknownStrategies m with
  | [] =>
    if m.strategies.isEmpty || c.leavesInitial m then [] else [.noInitialRoute (c.fullName m)]
  | unknown => unknown.map (.unknownStrategy (c.fullName m))

/-- Everything that is wrong. -/
def problems (c : Config) : List ConfigProblem :=
  c.sizeProblems ++ c.nameProblems ++ c.methods.flatMap c.strategyProblems

/-- Accepts a configuration without problems. -/
def validate (c : Config) : Except ConfigError Unit :=
  match c.problems with
  | [] => .ok ()
  | problems => .error (.invalid problems)

/-- What the check writes to the log. -/
def validationReport (c : Config) : List Message :=
  let outcome :=
    match c.problems with
    | [] => [.validationCompleted c.methods.length]
    | problems =>
      problems.map (fun p => Message.validationProblem p.message) ++
        [.validationFailed problems.length]
  .validationStarted c.methods.length c.strategies.length :: outcome

theorem validate_eq_ok_iff (c : Config) : c.validate = .ok () ↔ c.problems = [] := by
  rw [validate]
  split <;> simp_all

end Config
end RpcFlow
