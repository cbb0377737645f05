import RpcFlow.Proofs.Client.Configured
import RpcFlow.Proofs.Dict.LastEntries

/-!
# What is accepted is built

The check of a configuration and the building of its client look at the same methods one after the
other, and each finds the tables of the strategies by itself.  They agree: what was accepted can be built,
and every entry becomes a method of its own.

* `Config.Resolves` — the table that a name of a strategy stands for.
* `Config.Flaw`, `Config.Flawed` — a place where a configuration is wrong, and what is to be said there.
* `Config.Sound` — a configuration without such a place; `Config.sound_iff` proves it.
* `Config.flaws` — all flaws in order.  `Config.problems_eq` says that the check reports these.
* `Config.Holds` — a client that has one method for every entry.
* `Config.Launches` — a session with such a client and with one engine, as it was configured.
* `Config.builds_accepted` — **what the check reports, and that it accepts what can be built**.
-/

set_option autoImplicit false

namespace RpcFlow

/-! ## Tables -/

theorem Preset.ofName?_eq_some_iff {name : String} {p : Preset} :
    Preset.ofName? name = some p ↔ p.name = name := by
  constructor
  · intro h
    exact beq_iff_eq.1 (List.find?_some (p := fun p : Preset => p.name == name) h)
  · rintro rfl
    exact Preset.ofName?_name p

namespace Config

variable {c : Config}

/-- A name stands for a table that the configuration defines, under that name, or else for the table of
the preset that is called so. -/
inductive Resolves (c : Config) (name : String) : Table → Prop
  | custom {t : Table} (h : Dict.at? c.strategies name = some t) : Resolves c name { t with name }
  | preset {p : Preset} (h : Dict.at? c.strategies name = none) (hp : p.name = name) :
    Resolves c name p.table

theorem table?_eq_some_iff {name : String} {t : Table} :
    c.table? name = some t ↔ c.Resolves name t := by
  unfold table?
  cases h : Dict.at? c.strategies name with
  | some t' =>
    constructor
    · rintro ⟨⟩
      exact .custom h
    · rintro (h' | ⟨h', -⟩)
      · rw [h] at h'
        cases h'
        rfl
      · rw [h] at h'
        cases h'
  | none =>
    rw [Option.map_eq_some_iff]
    constructor
    · rintro ⟨p, hp, rfl⟩
      exact .preset h (Preset.ofName?_eq_some_iff.1 hp)
    · rintro (h' | ⟨-, hp⟩)
      · rw [h] at h'
        cases h'
      · exact ⟨_, Preset.ofName?_eq_some_iff.2 hp, rfl⟩

theorem isNone_table?_iff {name : String} :
    (c.table? name).isNone = true ↔ ∀ t, ¬ c.Resolves name t := by
  rw [Option.isNone_iff_eq_none, Option.eq_none_iff_forall_not_mem]
  exact forall_congr' fun t => not_congr table?_eq_some_iff

/-- The tables of a method are those that its strategies stand for. -/
theorem tables_eq_ok_iff {m : MethodEntry} {tables : List Table} :
    c.tables m = .ok tables ↔ List.Forall₂ c.Resolves m.strategies tables := by
  constructor
  · exact fun h => (forall₂_tables h).imp fun _ _ ht => table?_eq_some_iff.1 ht
  · rw [Config.tables]
    generalize m.strategies = names
    intro h
    induction h with
    | nil => rfl
    | cons hname _ ih =>
      rw [List.mapM_cons, table?_eq_some_iff.2 hname]
      simp only [ih, bind, Except.bind, pure, Except.pure]

theorem filterMap_of_resolves {names : List String} {tables : List Table}
    (h : List.Forall₂ c.Resolves names tables) : names.filterMap c.table? = tables :=
  filterMap_of_forall₂ (h.imp fun _ _ ht => table?_eq_some_iff.2 ht)

/-- Either every strategy of a method stands for a table, or one of them for none. -/
theorem exists_tables {names : List String} (h : ∀ name ∈ names, ∃ t, c.Resolves name t) :
    ∃ tables, List.Forall₂ c.Resolves names tables := by
  induction names with
  | nil => exact ⟨[], .nil⟩
  | cons name names ih =>
    obtain ⟨t, ht⟩ := h name List.mem_cons_self
    obtain ⟨tables, htables⟩ := ih fun name' h' => h name' (List.mem_cons_of_mem name h')
    exact ⟨t :: tables, .cons ht htables⟩

/-! ## Flaws -/

/-- A place where a configuration is wrong. -/
inductive Flaw
  /-- The size of batches. -/
  | size
  /-- The name of the method at `k`. -/
  | name (k : Nat)
  /-- The strategy at `j` of the method at `k`. -/
  | strategy (k j : Nat)
  /-- The way of the method at `k`. -/
  | way (k : Nat)
  deriving DecidableEq, Repr

/-- Places are compared by these numbers: the size comes first, then the names, then method by method
what is wrong with its strategies. -/
def Flaw.rank : Flaw → List Nat
  | size => [0]
  | name k => [1, k]
  | strategy k j => [2, k, j]
  | way k => [2, k]

/-- What is wrong at a place: batches of no request, a method with the name of an earlier one, a strategy
that stands for nothing, or strategies whose tables, merged, do not lead out of the first stage. -/
inductive Flawed (c : Config) : Flaw → ConfigProblem → Prop
  | size (h : c.client.batchSize = some 0) : Flawed c .size (.invalidBatchSize 0)
  | name {j k : Nat} {m m' : MethodEntry} (hjk : j < k) (hj : c.methods[j]? = some m')
    (hk : c.methods[k]? = some m) (h : c.fullName m' = c.fullName m) :
    Flawed c (.name k) (.duplicateMethod (c.fullName m))
  | strategy {k j : Nat} {m : MethodEntry} {name : String} (hk : c.methods[k]? = some m)
    (hj : m.strategies[j]? = some name) (h : ∀ t, ¬ c.Resolves name t) :
    Flawed c (.strategy k j) (.unknownStrategy (c.fullName m) name)
  | way {k : Nat} {m : MethodEntry} {tables : List Table} (hk : c.methods[k]? = some m)
    (hne : m.strategies ≠ []) (htables : List.Forall₂ c.Resolves m.strategies tables)
    (h : (Strategy.merge tables 0).next .initial true = []) :
    Flawed c (.way k) (.noInitialRoute (c.fullName m))

/-- A configuration whose batches hold a request, whose methods have names of their own, whose strategies
all stand for tables, and whose methods all leave the first stage. -/
structure Sound (c : Config) : Prop where
  size : ∀ n, c.client.batchSize = some n → 1 ≤ n
  names : (c.methods.map c.fullName).Nodup
  resolved : ∀ m ∈ c.methods, ∀ name ∈ m.strategies, ∃ t, c.Resolves name t
  leaves : ∀ m ∈ c.methods, m.strategies ≠ [] → ∀ tables,
    List.Forall₂ c.Resolves m.strategies tables → (Strategy.merge tables 0).next .initial true ≠ []

/-- A configuration without flaws is sound. -/
theorem sound_iff : c.Sound ↔ ∀ place problem, ¬ c.Flawed place problem := by
  constructor
  · rintro h place problem (h0 | ⟨hjk, hj, hk, heq⟩ | ⟨hk, hj, hnone⟩ | ⟨hk, hne, htables, hstuck⟩)
    · exact absurd (h.size 0 h0) (by decide)
    · have hlt := (List.getElem?_eq_some_iff.1 hk).1
      refine List.nodup_iff_getElem?_ne_getElem?.1 h.names _ _ hjk (by rwa [List.length_map]) ?_
      rw [List.getElem?_map, List.getElem?_map, hj, hk]
      exact congrArg some heq
    · obtain ⟨t, ht⟩ := h.resolved _ (List.mem_of_getElem? hk) _ (List.mem_of_getElem? hj)
      exact hnone t ht
    · exact h.leaves _ (List.mem_of_getElem? hk) hne _ htables hstuck
  · refine fun h => ⟨fun n hn => ?_, ?_, fun m hm name hname => ?_,
      fun m hm hne tables htables hstuck => ?_⟩
    · rcases n.eq_zero_or_pos with rfl | hpos
      · exact absurd (.size hn) (h _ _)
      · exact hpos
    · refine List.nodup_iff_getElem?_ne_getElem?.2 fun j k hjk hk heq => ?_
      rw [List.length_map] at hk
      rw [List.getElem?_map, List.getElem?_map, List.getElem?_eq_getElem (Nat.lt_trans hjk hk),
        List.getElem?_eq_getElem hk] at heq
      exact h _ _ (.name hjk (List.getElem?_eq_getElem (Nat.lt_trans hjk hk))
        (List.getElem?_eq_getElem hk) (Option.some.inj heq))
    · obtain ⟨k, hk⟩ := List.getElem?_of_mem hm
      obtain ⟨j, hj⟩ := List.getElem?_of_mem hname
      by_contra hnone
      exact h _ _ (.strategy hk hj (not_exists.1 hnone))
    · obtain ⟨k, hk⟩ := List.getElem?_of_mem hm
      exact h _ _ (.way hk hne htables hstuck)

/-! ## The check -/

/-- What is wrong with the names. -/
def nameFlaws (c : Config) : List (Flaw × ConfigProblem) :=
  (c.methods.zipIdx.filter fun e => c.fullName e.1 ∈ (c.methods.map c.fullName).take e.2).map fun e =>
    (.name e.2, .duplicateMethod (c.fullName e.1))

/-- What is wrong with the strategies of a method. -/
def strategyFlaws (c : Config) (e : MethodEntry × Nat) : List (Flaw × ConfigProblem) :=
  (e.1.strategies.zipIdx.filter fun s => (c.table? s.1).isNone).map fun s =>
    (.strategy e.2 s.2, .unknownStrategy (c.fullName e.1) s.1)

/-- What is wrong with the way of a method whose strategies all stand for tables. -/
def wayFlaws (c : Config) (e : MethodEntry × Nat) : List (Flaw × ConfigProblem) :=
  if c.unknownStrategies e.1 = [] ∧ e.1.strategies ≠ [] ∧ c.leavesInitial e.1 = false then
    [(.way e.2, .noInitialRoute (c.fullName e.1))]
  else []

/-- All that is wrong, place by place. -/
def flaws (c : Config) : List (Flaw × ConfigProblem) :=
  (if c.client.batchSize = some 0 then [(.size, .invalidBatchSize 0)] else []) ++
    (c.nameFlaws ++ c.methods.zipIdx.flatMap fun e => c.strategyFlaws e ++ c.wayFlaws e)

/-- The names that occur again are those that also stand further ahead. -/
theorem repeatedNames_eq {seen earlier : List String} (names : List String)
    (h : ∀ name, name ∈ seen ↔ name ∈ earlier) :
    repeatedNames seen names = ((names.zipIdx earlier.length).filter fun e =>
      e.1 ∈ (earlier ++ names).take e.2).map Prod.fst := by
  induction names generalizing seen earlier with
  | nil => rfl
  | cons name rest ih =>
    have hrest : ∀ seen', (∀ name', name' ∈ seen' ↔ name' ∈ earlier ++ [name]) →
        repeatedNames seen' rest = ((rest.zipIdx (earlier.length + 1)).filter fun e =>
          e.1 ∈ (earlier ++ name :: rest).take e.2).map Prod.fst := fun seen' h' => by
      rw [ih h', List.length_append, List.append_assoc]
      rfl
    rw [repeatedNames, List.zipIdx_cons, List.filter_cons, List.take_left]
    by_cases hname : name ∈ seen
    · rw [if_pos (List.contains_iff_mem.2 hname), if_pos (decide_eq_true ((h name).1 hname)),
        List.map_cons, hrest seen fun name' => ?_]
      rw [List.mem_append, List.mem_singleton, h name']
      exact ⟨.inl, fun h' => h'.elim id fun heq => heq ▸ (h name).1 hname⟩
    · have hnew : ¬ seen.contains name = true := fun h' => hname (List.contains_iff_mem.1 h')
      have hnone : ¬ decide (name ∈ earlier) = true := fun h' => hname ((h name).2 (of_decide_eq_true h'))
      rw [if_neg hnew, if_neg hnone, hrest (name :: seen) fun name' => ?_]
      rw [List.mem_append, List.mem_singleton, List.mem_cons, h name', or_comm]

theorem nameProblems_eq (c : Config) : c.nameProblems = c.nameFlaws.map Prod.snd := by
  have hnone : ∀ name, name ∈ ([] : List String) ↔ name ∈ ([] : List String) := fun _ => Iff.rfl
  rw [nameProblems, nameFlaws, repeatedNames_eq _ hnone, List.zipIdx_map, List.filter_map]
  simp only [List.map_map, List.nil_append]
  rfl

theorem strategyProblems_eq (c : Config) (e : MethodEntry × Nat) :
    c.strategyProblems e.1 = (c.strategyFlaws e ++ c.wayFlaws e).map Prod.snd := by
  have hunknown : c.unknownStrategies e.1 =
      (e.1.strategies.zipIdx.filter fun s => (c.table? s.1).isNone).map Prod.fst := by
    conv_lhs => rw [unknownStrategies, ← List.zipIdx_map_fst 0 e.1.strategies, List.filter_map]
    rfl
  have hstrategies : (c.strategyFlaws e).map Prod.snd =
      (c.unknownStrategies e.1).map (.unknownStrategy (c.fullName e.1)) := by
    rw [hunknown, strategyFlaws, List.map_map, List.map_map]
    rfl
  rw [List.map_append, hstrategies, strategyProblems, wayFlaws]
  split
  · rename_i hnone
    rw [hnone, List.map_nil, List.nil_append]
    cases e.1.strategies <;> cases c.leavesInitial e.1 <;> simp
  · rename_i hsome
    rw [if_neg fun h => hsome h.1, List.map_nil, List.append_nil]

/-- **The check reports the flaws**, one after the other. -/
theorem problems_eq (c : Config) : c.problems = c.flaws.map Prod.snd := by
  have hsize : c.sizeProblems =
      (if c.client.batchSize = some 0 then [(Flaw.size, ConfigProblem.invalidBatchSize 0)] else []).map
        Prod.snd := by
    rw [sizeProblems, ClientOptions.maxBatchSize]
    cases c.client.batchSize with
    | none => rfl
    | some n => cases n <;> rfl
  have hstrategies : c.methods.flatMap c.strategyProblems =
      c.methods.zipIdx.flatMap fun e => (c.strategyFlaws e ++ c.wayFlaws e).map Prod.snd := by
    conv_lhs => rw [← List.zipIdx_map_fst 0 c.methods, List.flatMap_map]
    exact List.flatMap_congr fun e _ => c.strategyProblems_eq e
  rw [problems, flaws, List.map_append, List.map_append, ← hsize, ← nameProblems_eq, List.append_assoc,
    List.map_flatMap, hstrategies]

/-! ## Flaws are told once and in order -/

theorem unknownStrategies_eq_nil_iff {m : MethodEntry} :
    c.unknownStrategies m = [] ↔ ∃ tables, List.Forall₂ c.Resolves m.strategies tables := by
  rw [unknownStrategies, List.filter_eq_nil_iff]
  constructor
  · refine fun h => exists_tables fun name hname => ?_
    by_contra hnone
    exact h name hname (isNone_table?_iff.2 (not_exists.1 hnone))
  · rintro ⟨tables, htables⟩ name hname hnone
    obtain ⟨t, -, ht⟩ := exists_of_forall₂ htables.flip hname
    exact isNone_table?_iff.1 hnone t ht

theorem leavesInitial_eq_false_iff {m : MethodEntry} {tables : List Table}
    (h : List.Forall₂ c.Resolves m.strategies tables) :
    c.leavesInitial m = false ↔ (Strategy.merge tables 0).next .initial true = [] := by
  rw [leavesInitial, filterMap_of_resolves h, Bool.not_eq_false', List.isEmpty_iff]

theorem mem_nameFlaws {place : Flaw} {problem : ConfigProblem} :
    (place, problem) ∈ c.nameFlaws ↔ ∃ k m j m', j < k ∧ c.methods[j]? = some m' ∧
      c.methods[k]? = some m ∧ c.fullName m' = c.fullName m ∧ place = .name k ∧
      problem = .duplicateMethod (c.fullName m) := by
  have hearlier : ∀ {k : Nat} {name : String}, name ∈ (c.methods.map c.fullName).take k ↔
      ∃ j m', j < k ∧ c.methods[j]? = some m' ∧ c.fullName m' = name := fun {k name} => by
    rw [List.mem_iff_getElem?]
    simp only [List.getElem?_take, List.getElem?_map]
    grind
  simp only [nameFlaws, List.mem_map, List.mem_filter, decide_eq_true_eq, hearlier, Prod.exists,
    List.mk_mem_zipIdx_iff_getElem?, Prod.mk.injEq]
  grind

theorem mem_strategyFlaws {m : MethodEntry} {k : Nat} {place : Flaw} {problem : ConfigProblem} :
    (place, problem) ∈ c.strategyFlaws (m, k) ↔ ∃ j name, m.strategies[j]? = some name ∧
      (∀ t, ¬ c.Resolves name t) ∧ place = .strategy k j ∧
      problem = .unknownStrategy (c.fullName m) name := by
  simp only [strategyFlaws, List.mem_map, List.mem_filter, isNone_table?_iff, Prod.exists,
    List.mk_mem_zipIdx_iff_getElem?, Prod.mk.injEq]
  grind

theorem mem_wayFlaws {m : MethodEntry} {k : Nat} {place : Flaw} {problem : ConfigProblem} :
    (place, problem) ∈ c.wayFlaws (m, k) ↔ ∃ tables, m.strategies ≠ [] ∧
      List.Forall₂ c.Resolves m.strategies tables ∧
      (Strategy.merge tables 0).next .initial true = [] ∧ place = .way k ∧
      problem = .noInitialRoute (c.fullName m) := by
  rw [wayFlaws]
  constructor
  · intro h
    split at h
    · rename_i hway
      obtain ⟨hnone, hne, hstuck⟩ := hway
      obtain ⟨tables, htables⟩ := unknownStrategies_eq_nil_iff.1 hnone
      cases List.mem_singleton.1 h
      exact ⟨tables, hne, htables, (leavesInitial_eq_false_iff htables).1 hstuck, rfl, rfl⟩
    · cases h
  · rintro ⟨tables, hne, htables, hstuck, rfl, rfl⟩
    rw [if_pos ⟨unknownStrategies_eq_nil_iff.2 ⟨tables, htables⟩, hne,
      (leavesInitial_eq_false_iff htables).2 hstuck⟩]
    exact List.mem_singleton_self _

/-- The flaws are all that is wrong. -/
theorem mem_flaws {place : Flaw} {problem : ConfigProblem} :
    (place, problem) ∈ c.flaws ↔ c.Flawed place problem := by
  have hsize : (place, problem) ∈ (if c.client.batchSize = some 0 then
      [(Flaw.size, ConfigProblem.invalidBatchSize 0)] else []) ↔
      c.client.batchSize = some 0 ∧ place = .size ∧ problem = .invalidBatchSize 0 := by
    split <;> simp [*]
  simp only [flaws, List.mem_append, hsize, mem_nameFlaws, List.mem_flatMap, Prod.exists,
    List.mk_mem_zipIdx_iff_getElem?, mem_strategyFlaws, mem_wayFlaws]
  constructor
  · rintro (⟨h, rfl, rfl⟩ | ⟨k, m, j, m', hjk, hj, hk, h, rfl, rfl⟩ |
      ⟨m, k, hk, ⟨j, name, hj, h, rfl, rfl⟩ | ⟨tables, hne, htables, h, rfl, rfl⟩⟩)
    · exact .size h
    · exact .name hjk hj hk h
    · exact .strategy hk hj h
    · exact .way hk hne htables h
  · rintro (h | ⟨hjk, hj, hk, h⟩ | ⟨hk, hj, h⟩ | ⟨hk, hne, htables, h⟩)
    · exact .inl ⟨h, rfl, rfl⟩
    · exact .inr (.inl ⟨_, _, _, _, hjk, hj, hk, h, rfl, rfl⟩)
    · exact .inr (.inr ⟨_, _, hk, .inl ⟨_, _, hj, h, rfl, rfl⟩⟩)
    · exact .inr (.inr ⟨_, _, hk, .inr ⟨_, hne, htables, h, rfl, rfl⟩⟩)

theorem pairwise_zipIdx {α : Type} (xs : List α) : xs.zipIdx.Pairwise fun a b => a.2 < b.2 := by
  have hsnd := List.pairwise_lt_range' (s := 0) (n := xs.length) 1 Nat.one_pos
  rw [← List.zipIdx_map_snd 0 xs] at hsnd
  exact List.pairwise_map.1 hsnd

/-- What is wrong with a method stands behind its number. -/
theorem rank_of_mem {e : MethodEntry × Nat} {x : Flaw × ConfigProblem}
    (h : x ∈ c.strategyFlaws e ++ c.wayFlaws e) : ∃ rest, x.1.rank = 2 :: e.2 :: rest := by
  obtain ⟨m, k⟩ := e
  obtain ⟨place, problem⟩ := x
  rcases List.mem_append.1 h with h | h
  · obtain ⟨j, -, -, -, rfl, -⟩ := mem_strategyFlaws.1 h
    exact ⟨[j], rfl⟩
  · obtain ⟨-, -, -, -, rfl, -⟩ := mem_wayFlaws.1 h
    exact ⟨[], rfl⟩

/-- They are in order, and no place occurs twice. -/
theorem pairwise_flaws (c : Config) : c.flaws.Pairwise fun a b => a.1.rank < b.1.rank := by
  have hnames : c.nameFlaws.Pairwise fun a b => a.1.rank < b.1.rank :=
    List.pairwise_map.2 (((pairwise_zipIdx c.methods).filter _).imp fun hlt => .cons (.rel hlt))
  have hmethod : ∀ e, (c.strategyFlaws e ++ c.wayFlaws e).Pairwise fun a b => a.1.rank < b.1.rank := by
    intro e
    have hstrategies : (c.strategyFlaws e).Pairwise fun a b => a.1.rank < b.1.rank :=
      List.pairwise_map.2 (((pairwise_zipIdx e.1.strategies).filter _).imp fun hlt =>
        .cons (.cons (.rel hlt)))
    rw [wayFlaws]
    split
    · -- a method with a flaw of this kind has none of the other kind
      rename_i hway
      obtain ⟨tables, htables⟩ := unknownStrategies_eq_nil_iff.1 hway.1
      have hnil : c.strategyFlaws e = [] := List.eq_nil_iff_forall_not_mem.2 fun x hx => by
        obtain ⟨j, name, hj, hnone, -⟩ := mem_strategyFlaws.1 hx
        obtain ⟨t, -, ht⟩ := exists_of_forall₂ htables.flip (List.mem_of_getElem? hj)
        exact hnone t ht
      rw [hnil, List.nil_append]
      exact List.pairwise_singleton _ _
    · rwa [List.append_nil]
  have hmethods : (c.methods.zipIdx.flatMap fun e => c.strategyFlaws e ++ c.wayFlaws e).Pairwise
      fun a b => a.1.rank < b.1.rank := by
    refine List.pairwise_flatMap.2 ⟨fun e _ => hmethod e, ?_⟩
    refine (pairwise_zipIdx c.methods).imp fun hlt x hx y hy => ?_
    obtain ⟨rest, hrest⟩ := rank_of_mem hx
    obtain ⟨rest', hrest'⟩ := rank_of_mem hy
    rw [hrest, hrest']
    exact .cons (.rel hlt)
  -- the three parts have different first numbers
  have hname : ∀ x ∈ c.nameFlaws, ∃ k, x.1.rank = [1, k] := fun x hx => by
    obtain ⟨k, -, -, -, -, -, -, -, hplace, -⟩ := mem_nameFlaws.1 hx
    exact ⟨k, congrArg Flaw.rank hplace⟩
  have hlast : ∀ x ∈ c.methods.zipIdx.flatMap fun e => c.strategyFlaws e ++ c.wayFlaws e,
      ∃ rest, x.1.rank = 2 :: rest := fun x hx => by
    obtain ⟨e, -, hx⟩ := List.mem_flatMap.1 hx
    obtain ⟨rest, hrest⟩ := rank_of_mem hx
    exact ⟨_, hrest⟩
  refine List.pairwise_append.2 ⟨?_, List.pairwise_append.2 ⟨hnames, hmethods, fun x hx y hy => ?_⟩,
    fun x hx y hy => ?_⟩
  · split
    · exact List.pairwise_singleton _ _
    · exact List.Pairwise.nil
  · obtain ⟨k, hk⟩ := hname x hx
    obtain ⟨rest, hrest⟩ := hlast y hy
    rw [hk, hrest]
    exact .rel (by decide)
  · have hsize : x.1.rank = [0] := by
      split at hx
      · rw [List.mem_singleton.1 hx]
        rfl
      · cases hx
    rcases List.mem_append.1 hy with hy | hy
    · obtain ⟨k, hk⟩ := hname y hy
      rw [hsize, hk]
      exact .rel (by decide)
    · obtain ⟨rest, hrest⟩ := hlast y hy
      rw [hsize, hrest]
      exact .rel (by decide)

/-! ## The verdict -/

/-- The check reports what is wrong, at every place once and in order. -/
theorem validate_eq (c : Config) :
    c.validate = if c.flaws = [] then .ok () else .error (.invalid (c.flaws.map Prod.snd)) := by
  rw [validate, problems_eq]
  split
  · rename_i hnil
    rw [if_pos (List.map_eq_nil_iff.1 hnil)]
  · rename_i hne
    rw [if_neg fun hnil => hne (List.map_eq_nil_iff.2 hnil)]

theorem flaws_eq_nil_iff : c.flaws = [] ↔ c.Sound := by
  rw [sound_iff, List.eq_nil_iff_forall_not_mem, Prod.forall]
  exact forall_congr' fun place => forall_congr' fun problem => not_congr mem_flaws

/-- **A configuration is accepted if it is sound.** -/
theorem validate_eq_ok_iff_sound : c.validate = .ok () ↔ c.Sound := by
  rw [validate_eq_ok_iff, problems_eq, List.map_eq_nil_iff, flaws_eq_nil_iff]

end Config

/-! ## Building -/

namespace Client

/-- Methods with names of their own are all declared, each under its name. -/
theorem declares_register {base : Client} (hb : base.methods = []) {methods : List Method}
    (h : (methods.map Method.name).Nodup) :
    (methods.foldl register base).methods.Perm (methods.map fun m => (m.name, m)) ∧
      ∀ m ∈ methods, (methods.foldl register base).method? m.name = some m := by
  have hfold : ∀ (methods : List Method) (c : Client), (methods.foldl register c).methods =
      Dict.overlay c.methods (methods.map fun m => (m.name, m)) := by
    intro methods
    induction methods with
    | nil => exact fun c => rfl
    | cons m rest ih => exact fun c => ih (c.register m)
  have hnames : Dict.names (methods.map fun m => (m.name, m)) = methods.map Method.name := by
    rw [Dict.names, List.map_map]
    rfl
  have hall := hfold methods base
  rw [hb] at hall
  have hperm := Dict.perm_ofEntries (hnames ▸ h)
  rw [Dict.ofEntries, ← hall] at hperm
  refine ⟨hperm, fun m hm => Dict.at?_of_mem (hall ▸ Dict.sorted_ofEntries _) (hperm.mem_iff.2 ?_)⟩
  exact List.mem_map_of_mem hm

end Client

/-- If the items of two lists agree one by one in something, the lists do. -/
theorem map_eq_of_forall₂ {α β γ : Type} {f : α → γ} {g : β → γ} {xs : List α} {ys : List β}
    (h : List.Forall₂ (fun x y => g y = f x) xs ys) : ys.map g = xs.map f := by
  induction h with
  | nil => rfl
  | cons hxy _ ih => rw [List.map_cons, List.map_cons, hxy, ih]

namespace Config

variable {c : Config}

/-- A method with the name and the settings of an entry. -/
structure Carries (c : Config) (m : MethodEntry) (method : Method) : Prop where
  name : method.name = c.fullName m
  http : method.http = m.http
  envelope : method.envelope = m.envelope
  expiresAfter : method.expiresAfter = (m.cacheExpiresAfterMs.map Duration.ofMillis).getD .longest
  bindable : method.bindable = m.bindable
  noBatch : method.noBatch = m.noBatch
  defaults : Dict.Sorted m.defaults → method.defaults = m.defaults
  usual : m.strategies = [] → method.strategy = .fallback method.strategy.cell
  merged : m.strategies ≠ [] → ∀ tables, List.Forall₂ c.Resolves m.strategies tables →
    method.strategy = .merge tables method.strategy.cell

/-- A client that has these methods, one for every entry in order, each under the name of its entry and
with flags of its own. -/
structure Holds (c : Config) (client : Client) (methods : List Method) : Prop where
  carries : List.Forall₂ (fun m method => c.Carries m method ∧
    client.method? (c.fullName m) = some method) c.methods methods
  all : client.methods.Perm (methods.map fun method => (method.name, method))
  cells : (methods.map fun method => method.strategy.cell).Nodup
  size : client.maxBatchSize = c.client.maxBatchSize

/-- The method of an entry carries the settings of the entry. -/
theorem carries_method {m : MethodEntry} {cell : Nat} {method : Method}
    (h : c.method m cell = .ok method) : c.Carries m method ∧ method.strategy.cell = cell := by
  unfold Config.method at h
  split at h
  swap
  · cases h
  rename_i tables ht
  cases h
  have htables := tables_eq_ok_iff.1 ht
  rw [MethodEntry.method, Method.withTables]
  split
  · rename_i hnil
    have hnone : m.strategies = [] :=
      List.forall₂_nil_right_iff.1 (List.isEmpty_iff.1 hnil ▸ htables)
    exact ⟨⟨rfl, rfl, rfl, rfl, rfl, rfl, Dict.ofEntries_eq_self, fun _ => rfl,
      fun hne => absurd hnone hne⟩, rfl⟩
  · rename_i hne
    have hsome : m.strategies ≠ [] := fun hnil =>
      hne (List.isEmpty_iff.2 (List.forall₂_nil_left_iff.1 (hnil ▸ htables)))
    refine ⟨⟨rfl, rfl, rfl, rfl, rfl, rfl, Dict.ofEntries_eq_self, fun hnil => absurd hnil hsome,
      fun _ tables' h' => ?_⟩, rfl⟩
    rw [← filterMap_of_resolves htables, filterMap_of_resolves h']
    rfl

/-- If every item can be made, the list can. -/
theorem mapM_ok_of_forall {α β ε : Type} {f : α → Except ε β} {xs : List α}
    (h : ∀ x ∈ xs, ∃ y, f x = .ok y) : ∃ ys, xs.mapM f = .ok ys := by
  induction xs with
  | nil => exact ⟨[], rfl⟩
  | cons x xs ih =>
    obtain ⟨y, hy⟩ := h x List.mem_cons_self
    obtain ⟨ys, hys⟩ := ih fun x' h' => h x' (List.mem_cons_of_mem x h')
    refine ⟨y :: ys, ?_⟩
    rw [List.mapM_cons, hy, hys]
    rfl

/-- In a sound configuration every method finds its tables. -/
theorem Sound.exists_tables (h : c.Sound) {m : MethodEntry} (hm : m ∈ c.methods) :
    ∃ tables, c.tables m = .ok tables ∧ List.Forall₂ c.Resolves m.strategies tables := by
  obtain ⟨tables, htables⟩ := Config.exists_tables (h.resolved m hm)
  exact ⟨tables, tables_eq_ok_iff.2 htables, htables⟩

theorem Sound.max_size (h : c.Sound) : max c.client.maxBatchSize 1 = c.client.maxBatchSize := by
  refine Nat.max_eq_left ?_
  rw [ClientOptions.maxBatchSize]
  cases hsize : c.client.batchSize with
  | none => exact Nat.le_refl 1
  | some n => exact h.size n hsize

/-- **A sound configuration becomes a client that holds all its methods.** -/
theorem Sound.newClient (h : c.Sound) (transport : String) :
    ∃ client methods, c.newClient transport = .ok client ∧ client.transport = transport ∧
      c.Holds client methods := by
  obtain ⟨methods, hmethods⟩ : ∃ methods,
      (c.methods.zipIdx 1).mapM (fun e => c.method e.1 e.2) = .ok methods := by
    refine mapM_ok_of_forall fun e he => ?_
    obtain ⟨tables, htables, -⟩ := h.exists_tables (List.fst_mem_of_mem_zipIdx he)
    exact ⟨_, by rw [Config.method, htables]⟩
  have hmade := (forall₂_of_mapM_ok hmethods).imp fun _ _ hm => carries_method hm
  have hcarries : List.Forall₂ c.Carries c.methods methods := by
    rw [← List.zipIdx_map_fst 1 c.methods, List.forall₂_map_left_iff]
    exact hmade.imp fun _ _ hm => hm.1
  have hnames : methods.map Method.name = c.methods.map c.fullName :=
    map_eq_of_forall₂ (hcarries.imp fun _ _ hm => hm.name)
  have hcells : methods.map (fun method => method.strategy.cell) = List.range' 1 c.methods.length := by
    rw [map_eq_of_forall₂ (hmade.imp fun _ _ hm => hm.2), List.zipIdx_map_snd]
  let start := (Client.plain transport).withMaxBatchSize c.client.maxBatchSize
  have hempty : start.methods = [] := rfl
  obtain ⟨hall, hfound⟩ := Client.declares_register hempty (hnames ▸ h.names)
  refine ⟨methods.foldl Client.register start, methods, ?_, ?_, ?_, hall, hcells ▸ List.nodup_range', ?_⟩
  · rw [Config.newClient, validate_eq_ok_iff_sound.2 h]
    simp only [hmethods, bind, Except.bind, pure, Except.pure]
    rfl
  · exact List.foldlRecOn (motive := fun client : Client => client.transport = transport)
      methods Client.register rfl fun _ hclient _ _ => hclient
  · refine List.forall₂_iff_zip.2 ⟨hcarries.length_eq, fun {m method} hmem => ?_⟩
    have hm := (List.forall₂_iff_zip.1 hcarries).2 hmem
    exact ⟨hm, hm.name ▸ hfound method (List.of_mem_zip hmem).2⟩
  · have hstart : start.maxBatchSize = c.client.maxBatchSize := h.max_size
    exact List.foldlRecOn
      (motive := fun client : Client => client.maxBatchSize = c.client.maxBatchSize)
      methods Client.register hstart fun _ hclient _ _ => hclient

/-- What was not accepted is not built, and says why. -/
theorem ofConfig_eq_error {error : ConfigError} (h : c.validate = .error error) (world : Bench)
    (s : EngineSetup) (transport : String) : Session.ofConfig c world s transport = .error error := by
  rw [Session.ofConfig, newClient, h]
  rfl

/-- A session whose client holds the methods, and whose one engine has not done anything.  A stage of the
engine has the last block that was put in its place, or else the built-in one, with the configured window
and retries. -/
structure Launches (c : Config) (world : Bench) (s : EngineSetup) (transport : String) (session : Session)
    (methods : List Method) : Prop where
  holds : c.Holds session.client methods
  transport : session.client.transport = transport
  bench : session.fleet.world = world
  engine : ∃ blocks, session.fleet.engines = #[(s.facilities.environment, Engine.start blocks world)] ∧
    (∀ stage, (∀ x ∈ s.custom, x.1 ≠ stage) →
      blocks stage = Stages.block c.engine.window c.engine.retries stage) ∧
    ∀ before stage b after, s.custom = before ++ (stage, b) :: after →
      (∀ x ∈ after, x.1 ≠ stage) → blocks stage = b

/-- Blocks that are put in the place of other stages leave a stage its own. -/
theorem foldl_custom_of_ne {stage : Stage} {custom : List (Stage × Block)}
    (h : ∀ x ∈ custom, x.1 ≠ stage) (b : Stage → Block) :
    custom.foldl (fun b x stage => if stage = x.1 then x.2 else b stage) b stage = b stage := by
  induction custom generalizing b with
  | nil => rfl
  | cons x custom ih =>
    rw [List.foldl_cons, ih fun y hy => h y (List.mem_cons_of_mem x hy),
      if_neg (h x List.mem_cons_self).symm]

theorem launches_start {client : Client} {methods : List Method} {transport : String}
    (hclient : client.transport = transport) (h : c.Holds client methods) (world : Bench)
    (s : EngineSetup) (cell : Nat) :
    c.Launches world s transport (.start world (c.setup s) client cell) methods where
  holds := h
  transport := hclient
  bench := rfl
  engine := by
    refine ⟨(c.setup s).blocks, rfl, fun stage hne => foldl_custom_of_ne hne _,
      fun before stage b after hcustom hne => ?_⟩
    rw [EngineSetup.blocks, setup, hcustom, List.foldl_append, List.foldl_cons,
      foldl_custom_of_ne hne, if_pos rfl]

/-- **The check reports what is wrong, each place once and in order, and it accepts what can be built.**
It accepts a configuration if that is sound, and then every method finds its tables, and what is built is
a session whose client holds one method for every entry and whose engine is as it was configured;
otherwise nothing is built, for the same reason. -/
theorem builds_accepted (c : Config) (world : Bench) (s : EngineSetup) (transport : String) :
    (∃ flaws : List (Flaw × ConfigProblem), flaws.Pairwise (fun a b => a.1.rank < b.1.rank) ∧
      (∀ place problem, (place, problem) ∈ flaws ↔ c.Flawed place problem) ∧
      c.validate = if flaws = [] then .ok () else .error (.invalid (flaws.map Prod.snd))) ∧
    (c.validate = .ok () ↔ c.Sound) ∧
    ((∃ session, Session.ofConfig c world s transport = .ok session) ↔ c.validate = .ok ()) ∧
    (∀ error, c.validate = .error error → Session.ofConfig c world s transport = .error error) ∧
    (c.validate = .ok () →
      (∀ m ∈ c.methods, ∃ tables, c.tables m = .ok tables ∧
        List.Forall₂ c.Resolves m.strategies tables) ∧
      ∃ session methods, Session.ofConfig c world s transport = .ok session ∧
        c.Launches world s transport session methods ∧
        session = .start world (c.setup s) session.client (c.methods.length + 1)) := by
  have hbuilt : c.validate = .ok () →
      (∀ m ∈ c.methods, ∃ tables, c.tables m = .ok tables ∧
        List.Forall₂ c.Resolves m.strategies tables) ∧
      ∃ session methods, Session.ofConfig c world s transport = .ok session ∧
        c.Launches world s transport session methods ∧
        session = .start world (c.setup s) session.client (c.methods.length + 1) := fun hv => by
    have hsound := validate_eq_ok_iff_sound.1 hv
    obtain ⟨client, methods, hclient, htransport, hholds⟩ := hsound.newClient transport
    refine ⟨fun m hm => hsound.exists_tables hm, .start world (c.setup s) client (c.methods.length + 1),
      methods, ?_, launches_start htransport hholds world s _, rfl⟩
    rw [Session.ofConfig, hclient]
    rfl
  refine ⟨⟨c.flaws, c.pairwise_flaws, fun _ _ => mem_flaws, c.validate_eq⟩, validate_eq_ok_iff_sound,
    ⟨fun ⟨session, hsession⟩ => ?_, fun hv => ?_⟩, fun _ h => ofConfig_eq_error h world s transport,
    hbuilt⟩
  · cases hv : c.validate with
    | error error =>
      rw [ofConfig_eq_error hv] at hsession
      cases hsession
    | ok => rfl
  · obtain ⟨-, session, -, hsession, -⟩ := hbuilt hv
    exact ⟨session, hsession⟩

/-- Two methods of one name with strategies that do not exist, in batches of no request. -/
example :
    let entry : MethodEntry := ⟨"a", none, .post, ["x"], none, true, false, .standard, []⟩
    let c : Config := ⟨⟨none, none⟩, ⟨some 0, none⟩, [],
      [entry, { entry with strategies := ["no_cache", "y"] }]⟩
    c.flaws = [(.size, .invalidBatchSize 0), (.name 1, .duplicateMethod "a"),
      (.strategy 0 0, .unknownStrategy "a" "x"), (.strategy 1 1, .unknownStrategy "a" "y")] := by
  decide +kernel

end Config

end RpcFlow
