import RpcFlow.Strategy.Table

/-!
# Merged strategies

The strategy of a request folds several tables into one, in order: the last table with an entry for
a stage decides that stage alone, and the last table with a flag sets it.

* `Strategy.merge` folds tables; `routes_merge` says which table decides a stage.
* `Strategy.next` lists the next stages after an outcome.
* Routes never change; flags may.  `Flags.set` changes one, and the strategy of a method is shared
  by all its calls, so changed flags are kept by `cell`, the identity of the strategy.
-/

set_option autoImplicit false

namespace RpcFlow

/-- The strategy of a request. -/
structure Strategy where
  /-- The names of the merged tables, joined. -/
  label : String
  routes : Stage → Option Decision
  /-- The flags before any change. -/
  flags : Dict String
  /-- Which strategy this is; requests with one cell share their flags. -/
  cell : Nat

namespace Strategy

/-- Binds every stage that a table decides. -/
def overlay (routes : Stage → Option Decision) (t : Table) : Stage → Option Decision :=
  fun s => (t.routes s).or (routes s)

/-- Folds tables in order. -/
def merge (tables : List Table) (cell : Nat) : Strategy :=
  { label := "+".intercalate (tables.map Table.name)
    routes := tables.foldl overlay fun _ => none
    flags := tables.foldl (fun d t => Dict.overlay d t.flags) []
    cell }

/-- The strategy of methods that declare none. -/
def fallback (cell : Nat) : Strategy := merge [Preset.noCache.table] cell

/-- The next stages after an outcome of a stage; none if the strategy does not decide it. -/
def next (s : Strategy) (stage : Stage) (success : Bool) : List Stage :=
  ((s.routes stage).map fun d => d.after success).getD []

/-- The number of stages the strategy decides. -/
def size (s : Strategy) : Nat := Stage.all.countP fun stage => (s.routes stage).isSome

/-- The strategy shown as a value. -/
def render (s : Strategy) : String :=
  Text.record "MergedStrategy" [("label", Text.quoted s.label), ("stages", toString s.size)]

/-- The last table with an entry for a stage decides it. -/
theorem foldl_overlay_apply (tables : List Table) (routes : Stage → Option Decision)
    (stage : Stage) :
    tables.foldl overlay routes stage =
      (tables.reverse.findSome? fun t => t.routes stage).or (routes stage) := by
  induction tables generalizing routes with
  | nil => simp
  | cons t rest ih =>
    rw [List.foldl_cons, ih, List.reverse_cons, List.findSome?_append]
    cases (rest.reverse.findSome? fun t => t.routes stage) <;> cases h : t.routes stage <;>
      simp [overlay, h]

theorem routes_merge (tables : List Table) (cell : Nat) (stage : Stage) :
    (merge tables cell).routes stage = tables.reverse.findSome? fun t => t.routes stage := by
  simp [merge, foldl_overlay_apply]

end Strategy

/-- The current flags of a strategy. -/
abbrev Flags := Dict String

namespace Flags

/-- Sets a flag, or forgets it. -/
def set (flags : Flags) (key : String) : Option String → Flags
  | some value => Dict.put flags key value
  | none => Dict.without flags key

/-- Is the flag set to `true`? -/
def isOn (flags : Flags) (key : String) : Bool := Dict.at? flags key == some "true"

end Flags
end RpcFlow
