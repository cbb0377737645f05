import RpcFlow.Stage

/-!
# Routing tables

A table says where a task goes after a stage: a `Decision` lists the next stages after a success
and after a failure.  A stage without a decision leads nowhere, which ends the task.  Tables also
carry flags, free texts by name.

* `Table.route` and `Table.flag` extend a table; a later entry replaces an earlier one.
* `Preset.table` gives the built-in tables.
-/

set_option autoImplicit false

namespace RpcFlow

/-- The next stages after each outcome of a stage. -/
structure Decision where
  onSuccess : List Stage
  onFailure : List Stage
  deriving DecidableEq, Repr, Inhabited

namespace Decision

/-- One next stage after a success, none after a failure. -/
def only (next : Stage) : Decision := ⟨[next], []⟩

/-- One next stage after each outcome. -/
def either (onSuccess onFailure : Stage) : Decision := ⟨[onSuccess], [onFailure]⟩

/-- The next stages after an outcome. -/
def after (d : Decision) (success : Bool) : List Stage :=
  if success then d.onSuccess else d.onFailure

/-- Reads a decision: an object whose lists may be absent, or an array of the two lists. -/
def ofJson : Json → Json.Shaped Decision
  | .obj members => do
    -- members are read in the order of their keys
    let onFailure ← match Dict.at? members "on_failure" with
      | none => pure []
      | some x => Stage.listOfJson x
    let onSuccess ← match Dict.at? members "on_success" with
      | none => pure []
      | some x => Stage.listOfJson x
    return ⟨onSuccess, onFailure⟩
  | .arr items => do
    let onSuccess ← match items[0]? with
      | none => pure []
      | some x => Stage.listOfJson x
    let onFailure ← match items[1]? with
      | none => pure []
      | some x => Stage.listOfJson x
    if items.length > 2 then .error (Json.tooManyItems items.length)
    else return ⟨onSuccess, onFailure⟩
  | found => .error (.wrongType found "struct Decision")

end Decision

/-- A routing table with its name and flags. -/
structure Table where
  name : String
  routes : Stage → Option Decision
  flags : Dict String

namespace Table

/-- The table without routes. -/
def empty (name : String) : Table := ⟨name, fun _ => none, []⟩

/-- Sets the decision of a stage. -/
def route (t : Table) (stage : Stage) (decision : Decision) : Table :=
  { t with routes := fun s => if s = stage then some decision else t.routes s }

/-- Sets a flag. -/
def flag (t : Table) (key value : String) : Table := { t with flags := Dict.put t.flags key value }

/-- The stages with a decision, in order, with that decision. -/
def entries (t : Table) : List (Stage × Decision) :=
  Stage.all.filterMap fun s => (t.routes s).map fun d => (s, d)

/-- Reads the routes of a table: an object from stages to decisions. -/
def routesOfJson (found : Json) : Json.Shaped (List (Stage × Decision)) := do
  (← Json.asMembers found).mapM fun e => do
    let stage ← Stage.ofJson (.str e.1)
    return (stage, ← Decision.ofJson e.2)

/-- Reads a table, without its name: an object with routes and flags, each of which may be absent,
or an array of the two. -/
def ofJson (found : Json) : Json.Shaped Table := do
  let (algorithm, metadata, count) ← match found with
    | .obj members => pure (Dict.at? members "algorithm", Dict.at? members "metadata", 0)
    | .arr items => pure (items[0]?, items[1]?, items.length)
    | _ => .error (.wrongType found "struct StrategyTable")
  let routes ← match algorithm with
    | none => pure []
    | some x => routesOfJson x
  let flags ← match metadata with
    | none => pure []
    | some x => Json.asDict Json.asText x
  if count > 2 then .error (Json.tooManyItems count)
  else return routes.foldl (fun t r => t.route r.1 r.2) { empty "" with flags }

end Table

/-- The flag that lets a task repeat a failed call. -/
def retryFlag : String := "retry_network_error"

/-- The built-in strategies. -/
inductive Preset where
  | noCache
  | requestExcludeCache
  | priorityRequest
  | priorityCache
  | retryIfNoNetwork
  | authorizedRequest
  deriving DecidableEq, Repr, Inhabited

namespace Preset

/-- Every preset, in order. -/
def all : List Preset :=
  [noCache, requestExcludeCache, priorityRequest, priorityCache, retryIfNoNetwork,
    authorizedRequest]

/-- The name of a preset. -/
def name : Preset → String
  | noCache => "no_cache"
  | requestExcludeCache => "request_exclude_cache"
  | priorityRequest => "priority_request"
  | priorityCache => "priority_cache"
  | retryIfNoNetwork => "retry_if_no_network"
  | authorizedRequest => "authorized_request"

/-- The preset with a name. -/
def ofName? (name : String) : Option Preset := all.find? fun p => p.name == name

theorem ofName?_name (p : Preset) : ofName? p.name = some p := by cases p <;> decide

/-- The text for a name that no preset has. -/
def unknownText (name : String) : String := "unknown invocation strategy '" ++ name ++ "'"

/-- Reads a preset. -/
def ofJson (found : Json) : Json.Shaped Preset :=
  Json.asVariant (all.map fun p => (p.name, p)) found

open Stage in
/-- The table of a preset.  The four that reach the network also say where an authorized request
goes on; the other two only change one entry of the tables they are merged with. -/
def table (p : Preset) : Table :=
  let t := Table.empty p.name
  match p with
  | noCache =>
    ((t.route initial (.only getFromNet)).route checkAuthToken (.either getFromNet deliverError)).route
      getFromNet (.either deliverResult resolveError)
  | requestExcludeCache =>
    ((t.route initial (.only getFromNet)).route checkAuthToken (.either getFromNet deliverError)).route
      getFromNet ⟨[deliverResult, saveToCache], [resolveError]⟩
  | priorityRequest =>
    (((t.route initial (.only getFromNet)).route checkAuthToken
      (.either getFromNet deliverError)).route
      getFromNet ⟨[deliverResult, saveToCache], [getFromCache]⟩).route
      getFromCache (.either deliverResult resolveError)
  | priorityCache =>
    (((t.route initial (.only getFromCache)).route checkAuthToken
      (.either getFromCache deliverError)).route
      getFromCache (.either deliverResult getFromNet)).route
      getFromNet ⟨[deliverResult, saveToCache], [resolveError]⟩
  | retryIfNoNetwork => t.flag retryFlag "true"
  | authorizedRequest => t.route initial (.only checkAuthToken)

end Preset
end RpcFlow
