import RpcFlow.Engine.Basic
import RpcFlow.Proofs.Dict.LastEntries

/-!
# What a strategy takes over from its tables

Tables are laid one over the other, and a later table replaces what an earlier one says of a stage or
a flag.  So the last table that says something says it alone: the two branches of a decision are never
taken from different tables.  Laying tables over each other in two goes is the same as in one.  Flags
may be set later on, which changes no route.

* `Table.folded` — the one table that a list of tables comes to.
* `Strategy.LastWins` — what the last table says that says something, for each stage and each flag.
* `FlagCall` — a flag that is set; `Engine.at?_flagsOf_setFlags` says what is left of a list of them.
* `Strategy.last_wins` — **merging is last-wins and composes, and flags leave the routes alone**.
-/

set_option autoImplicit false

namespace RpcFlow

/-- The table that a list of tables comes to. -/
def Table.folded (tables : List Table) : Table :=
  ⟨(Strategy.merge tables 0).label, (Strategy.merge tables 0).routes, (Strategy.merge tables 0).flags⟩

namespace Strategy

variable {tables : List Table} {cell : Nat}

theorem routes_merge_eq (tables : List Table) (cell : Nat) (stage : Stage) :
    (merge tables cell).routes stage = (tables.filterMap fun t => t.routes stage).getLast? := by
  rw [routes_merge, List.getLast?_filterMap]

/-- The last table that sets a flag decides on it. -/
theorem at?_flags_merge (h : ∀ t ∈ tables, Dict.Sorted t.flags) (cell : Nat) (key : String) :
    Dict.at? (merge tables cell).flags key =
      (tables.filterMap fun t => Dict.at? t.flags key).getLast? := by
  have hstep : ∀ d, ∀ t ∈ tables, Dict.at? (Dict.overlay d t.flags) key =
      (Dict.at? t.flags key).or (Dict.at? d key) := fun d t ht => Dict.at?_overlay (h t ht) d key
  have hwalk := getLast?_foldl_or (fun d => Dict.at? d key) _ hstep []
  rw [Dict.at?_nil, Option.or_none] at hwalk
  exact hwalk

theorem sorted_flags_merge (tables : List Table) (cell : Nat) :
    Dict.Sorted (merge tables cell).flags :=
  List.foldlRecOn tables _ Dict.sorted_nil fun _ hd t _ => Dict.sorted_overlay hd t.flags

/-- What a strategy says is what the last of the tables says that says something. -/
structure LastWins (tables : List Table) (s : Strategy) : Prop where
  /-- The decision for a stage is the whole of the last one. -/
  decides : ∀ stage d, s.routes stage = some d ↔ LastSays (fun t => t.routes stage) tables d
  undecided : ∀ stage, s.routes stage = none ↔ ∀ t ∈ tables, t.routes stage = none
  /-- Both branches come from one table. -/
  branches : ∀ before t after stage d, tables = before ++ t :: after → t.routes stage = some d →
    (∀ u ∈ after, u.routes stage = none) →
    s.next stage true = d.onSuccess ∧ s.next stage false = d.onFailure
  nowhere : ∀ stage, (∀ t ∈ tables, t.routes stage = none) → ∀ success, s.next stage success = []
  flag : ∀ key value,
    Dict.at? s.flags key = some value ↔ LastSays (fun t => Dict.at? t.flags key) tables value
  unset : ∀ key, Dict.at? s.flags key = none ↔ ∀ t ∈ tables, Dict.at? t.flags key = none

theorem lastWins_merge (h : ∀ t ∈ tables, Dict.Sorted t.flags) (cell : Nat) :
    LastWins tables (merge tables cell) where
  decides stage d := by rw [routes_merge_eq, getLast?_filterMap_eq_some_iff]
  undecided stage := by rw [routes_merge_eq, getLast?_filterMap_eq_none_iff]
  branches before t after stage d htables ht hafter := by
    have hd : (merge tables cell).routes stage = some d := by
      rw [routes_merge_eq, getLast?_filterMap_eq_some_iff]
      exact ⟨before, t, after, htables, ht, hafter⟩
    rw [next, next, hd]
    exact ⟨rfl, rfl⟩
  nowhere stage hnone success := by
    rw [next, routes_merge_eq, getLast?_filterMap_eq_none_iff.2 hnone]
    rfl
  flag key value := by rw [at?_flags_merge h, getLast?_filterMap_eq_some_iff]
  unset key := by rw [at?_flags_merge h, getLast?_filterMap_eq_none_iff]

/-! ## Merging in two goes -/

/-- Of two tables the second is asked first. -/
theorem getLast?_filterMap_pair {β : Type} (say : Table → Option β) (a b : Table) :
    ([a, b].filterMap say).getLast? = (say b).or (say a) := by
  rw [List.getLast?_filterMap, List.reverse_cons, List.findSome?_append, List.reverse_singleton,
    List.findSome?_singleton, List.findSome?_singleton]

theorem routes_merge_append (xs ys : List Table) (cell : Nat) :
    (merge (xs ++ ys) cell).routes = (merge [Table.folded xs, Table.folded ys] cell).routes := by
  funext stage
  rw [routes_merge_eq, routes_merge_eq, getLast?_filterMap_pair, List.filterMap_append,
    List.getLast?_append, ← routes_merge_eq xs 0, ← routes_merge_eq ys 0]
  rfl

theorem flags_merge_append {xs ys : List Table} (h : ∀ t ∈ xs ++ ys, Dict.Sorted t.flags)
    (cell : Nat) :
    (merge (xs ++ ys) cell).flags = (merge [Table.folded xs, Table.folded ys] cell).flags := by
  have hxs : ∀ t ∈ xs, Dict.Sorted t.flags := fun t ht => h t (List.mem_append_left _ ht)
  have hys : ∀ t ∈ ys, Dict.Sorted t.flags := fun t ht => h t (List.mem_append_right _ ht)
  have hpair : ∀ t ∈ [Table.folded xs, Table.folded ys], Dict.Sorted t.flags := by
    rw [List.forall_mem_cons, List.forall_mem_singleton]
    exact ⟨sorted_flags_merge xs 0, sorted_flags_merge ys 0⟩
  refine Dict.ext (sorted_flags_merge _ _) (sorted_flags_merge _ _) fun key => ?_
  rw [at?_flags_merge h, at?_flags_merge hpair, getLast?_filterMap_pair, List.filterMap_append,
    List.getLast?_append, ← at?_flags_merge hxs 0, ← at?_flags_merge hys 0]
  rfl

end Strategy

/-! ## Setting flags -/

/-- A flag of a strategy that is set, or forgotten. -/
structure FlagCall where
  strategy : Strategy
  key : String
  value : Option String

namespace FlagCall

/-- What the call leaves of a flag of a strategy, if it is about that flag. -/
def leaves (s : Strategy) (key : String) (c : FlagCall) : Option (Option String) :=
  if c.strategy.cell = s.cell ∧ c.key = key then some c.value else none

end FlagCall

theorem Flags.at?_set (flags : Flags) (key : String) (value : Option String) (other : String) :
    Dict.at? (flags.set key value) other = if other = key then value else Dict.at? flags other := by
  cases value with
  | none => exact Dict.at?_without flags key other
  | some value => exact Dict.at?_put flags key other value

namespace Engine

variable {σ : Type}

/-- Carries out a list of calls that set flags. -/
def setFlags (e : Engine σ) (calls : List FlagCall) : Engine σ :=
  calls.foldl (fun e c => e.setFlag c.strategy c.key c.value) e

/-- Whatever flags are set, an engine keeps everything else: its tasks with their routes, above all. -/
theorem setFlags_frame (e : Engine σ) (calls : List FlagCall) :
    { e.setFlags calls with flags := e.flags } = e :=
  List.foldlRecOn (motive := fun e' : Engine σ => { e' with flags := e.flags } = e) calls _ rfl
    fun _ h _ _ => h

/-- A flag that is set is set for all who share the strategy, and for nobody else. -/
theorem flagsOf_setFlag (e : Engine σ) {s s' : Strategy} (hs : s'.cell = s.cell → s' = s)
    (key : String) (value : Option String) :
    (e.setFlag s' key value).flagsOf s =
      if s'.cell = s.cell then (e.flagsOf s).set key value else e.flagsOf s := by
  rw [flagsOf, setFlag]
  by_cases hcell : s'.cell = s.cell
  · rw [if_pos hcell, hs hcell, List.lookup_cons_self, Option.getD_some]
  · have hne : (s.cell == s'.cell) = false := beq_eq_false_iff_ne.2 (Ne.symm hcell)
    rw [if_neg hcell, List.lookup_cons, hne, lookup_filter_of_ne e.flags (Ne.symm hcell)]
    rfl

/-- **The last call about a flag sets it.** -/
theorem at?_flagsOf_setFlags (e : Engine σ) {s : Strategy} {calls : List FlagCall}
    (h : ∀ c ∈ calls, c.strategy.cell = s.cell → c.strategy = s) (key : String) :
    Dict.at? ((e.setFlags calls).flagsOf s) key =
      ((calls.filterMap (FlagCall.leaves s key)).getLast?).getD (Dict.at? (e.flagsOf s) key) := by
  refine getLast?_foldl (fun e : Engine σ => Dict.at? (e.flagsOf s) key) (FlagCall.leaves s key)
    (fun e c hc => ?_) e
  rw [flagsOf_setFlag e (h c hc), FlagCall.leaves]
  by_cases hcell : c.strategy.cell = s.cell
  · rw [if_pos hcell, Flags.at?_set]
    by_cases hkey : c.key = key
    · rw [if_pos hkey.symm, if_pos ⟨hcell, hkey⟩, Option.getD_some]
    · rw [if_neg (Ne.symm hkey), if_neg fun hboth => hkey hboth.2, Option.getD_none]
  · rw [if_neg hcell, if_neg fun hboth => hcell hboth.1, Option.getD_none]

end Engine

/-! ## The result -/

namespace Strategy

variable {tables : List Table}

/-- **Merging is last-wins and composes; setting flags changes these flags and no route.**  The last
part is about any engine in which no flag of the strategy was changed before, and about calls on any
strategies. -/
theorem last_wins (h : ∀ t ∈ tables, Dict.Sorted t.flags) (cell : Nat) :
    LastWins tables (merge tables cell) ∧
      (∀ xs ys, tables = xs ++ ys →
        (merge tables cell).routes = (merge [Table.folded xs, Table.folded ys] cell).routes ∧
          (merge tables cell).flags = (merge [Table.folded xs, Table.folded ys] cell).flags) ∧
      ∀ (σ : Type) (e : Engine σ) (calls : List FlagCall), e.flags.lookup cell = none →
        (∀ c ∈ calls, c.strategy.cell = cell → c.strategy = merge tables cell) →
        (∀ key, Dict.at? ((e.setFlags calls).flagsOf (merge tables cell)) key =
          ((calls.filterMap (FlagCall.leaves (merge tables cell) key)).getLast?).getD
            (Dict.at? (merge tables cell).flags key)) ∧
          { e.setFlags calls with flags := e.flags } = e := by
  refine ⟨lastWins_merge h cell, ?_, fun σ e calls hcell hcalls => ⟨fun key => ?_, ?_⟩⟩
  · rintro xs ys rfl
    exact ⟨routes_merge_append xs ys cell, flags_merge_append h cell⟩
  · have hfresh : e.flagsOf (merge tables cell) = (merge tables cell).flags :=
      congrArg (fun o => Option.getD o _) hcell
    rw [Engine.at?_flagsOf_setFlags e hcalls, hfresh]
  · exact e.setFlags_frame calls

/-- Two tables that decide one stage and set one flag, and each another of its own. -/
def overlapping : List Table :=
  [(((Table.empty "a").route .getFromNet (.either .deliverResult .deliverError)).route .initial
      (.only .getFromNet)).flag "mode" "a" |>.flag "kept" "1",
    ((Table.empty "b").route .getFromNet (.either .saveToCache .resolveError)).flag "mode" "b"]

/-- The second table decides the stage, with both branches, and the flag that both set; then the flag
is set twice and the other is forgotten. -/
theorem last_wins_overlapping :
    (∀ t ∈ overlapping, Dict.Sorted t.flags) ∧ LastWins overlapping (merge overlapping 7) ∧
      ((merge overlapping 7).next .getFromNet true = [.saveToCache] ∧
        (merge overlapping 7).next .getFromNet false = [.resolveError] ∧
        (merge overlapping 7).next .initial true = [.getFromNet]) ∧
      (let calls := [FlagCall.mk (merge overlapping 7) "mode" (some "c"), ⟨fallback 2, "mode", none⟩,
        ⟨merge overlapping 7, "kept", none⟩, ⟨merge overlapping 7, "mode", some "d"⟩]
      let e := (Engine.start (fun _ => .passing) ()).setFlags calls
      Dict.at? (e.flagsOf (merge overlapping 7)) "mode" = some "d" ∧
        Dict.at? (e.flagsOf (merge overlapping 7)) "kept" = none ∧ e.tasks = #[]) := by
  have hsorted : ∀ t ∈ overlapping, Dict.Sorted t.flags := by decide
  obtain ⟨hlast, -, hflags⟩ := last_wins hsorted 7
  have hbranches := hlast.branches [overlapping[0]] overlapping[1] [] .getFromNet _ rfl rfl nofun
  refine ⟨hsorted, hlast, ⟨hbranches.1, hbranches.2, rfl⟩, ?_⟩
  intro calls e
  obtain ⟨hat, hframe⟩ := hflags Unit (Engine.start (fun _ => .passing) ()) calls rfl (by
    simp [calls, fallback, merge])
  exact ⟨hat "mode", hat "kept", congrArg Engine.tasks hframe⟩

end Strategy
end RpcFlow
