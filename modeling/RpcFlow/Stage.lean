import RpcFlow.Json.Shape

/-!
# Stages

The eight stages of the pipeline, in their fixed order, with the two names each has: the one used
in tables and messages and the one used when a value is shown.
-/

set_option autoImplicit false

namespace RpcFlow

/-- A step of the pipeline. -/
inductive Stage where
  | initial
  | getFromCache
  | getFromNet
  | saveToCache
  | deliverResult
  | deliverError
  | resolveError
  | checkAuthToken
  deriving DecidableEq, Repr, Inhabited

namespace Stage

/-- Every stage, in order. -/
def all : List Stage :=
  [initial, getFromCache, getFromNet, saveToCache, deliverResult, deliverError, resolveError,
    checkAuthToken]

theorem mem_all (s : Stage) : s ∈ all := by cases s <;> decide

/-- The place of a stage in the order. -/
def index (s : Stage) : Nat := s.ctorIdx

/-- The name of a stage in tables and messages. -/
def name : Stage → String
  | initial => "initial"
  | getFromCache => "get_from_cache"
  | getFromNet => "get_from_net"
  | saveToCache => "save_to_cache"
  | deliverResult => "deliver_result"
  | deliverError => "deliver_error"
  | resolveError => "resolve_error"
  | checkAuthToken => "check_auth_token"

/-- The name of a stage when a value is shown. -/
def label : Stage → String
  | initial => "Initial"
  | getFromCache => "GetFromCache"
  | getFromNet => "GetFromNet"
  | saveToCache => "SaveToCache"
  | deliverResult => "DeliverResult"
  | deliverError => "DeliverError"
  | resolveError => "ResolveError"
  | checkAuthToken => "CheckAuthToken"

/-- The stages with their names. -/
def named : List (String × Stage) := all.map fun s => (s.name, s)

/-- The stage with a name. -/
def ofName? (name : String) : Option Stage := all.find? fun s => s.name == name

theorem ofName?_name (s : Stage) : ofName? s.name = some s := by cases s <;> decide

/-- Reads a stage. -/
def ofJson (found : Json) : Json.Shaped Stage := Json.asVariant named found

/-- Reads a list of stages. -/
def listOfJson (found : Json) : Json.Shaped (List Stage) := do
  (← Json.asItems found).mapM ofJson

end Stage
end RpcFlow
