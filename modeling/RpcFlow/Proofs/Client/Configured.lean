import RpcFlow.Config.Setup
import RpcFlow.Proofs.Client.Descriptions
import RpcFlow.Proofs.Engine.Landing
import RpcFlow.Proofs.Engine.Requests

/-!
# Calls of configured methods

A configuration is accepted if the names in it are right and every method leaves the first stage.
What comes after that stage is up to the tables: a stage without a decision leads nowhere, and a
task that goes there finishes without a delivery.  So a call of a method that was accepted is
delivered to at most once, and exactly once if the tables of the method lead to a delivery.

* `Config.strategy` — the strategy of a method, up to its identity.
* `Client.Describing` — the descriptions that a client makes of the calls of a method, at any time.
* `Config.described` — what accepted methods make of their calls.
* `Config.delivers_configured` — **what a finished call was delivered**, and
  `Config.delivers_presets`, which methods lead to a delivery.
-/

set_option autoImplicit false

namespace RpcFlow

/-! ## Descriptions -/

namespace Client

/-- A description that a client makes of a call of a method; its ids and headers may have changed
since it was set up, its methods may not. -/
def Describing (c : Client) (name : String) (d : Descriptor) : Prop :=
  ∃ (now : Client) (id : Nat) (params : Params) (type : ResultType), now.methods = c.methods ∧
    (now.describe id name params type).1 = .ok d

/-- A description is one of a declared method, whose name it bears and whose strategy it follows. -/
theorem Describing.of_method {c : Client} {name : String} {d : Descriptor} (h : c.Describing name d) :
    ∃ m, c.method? name = some m ∧ d.method = m.name ∧ d.strategy = m.strategy := by
  obtain ⟨now, id, params, type, hnow, h⟩ := h
  obtain ⟨m, value, request, hm, -, hb, hbuild, -⟩ := Client.build_of_describe h
  obtain ⟨flat, key, -, -, rfl⟩ := Descriptor.eq_of_build hbuild
  rw [method?, hnow] at hm
  exact ⟨m, hm, (Method.alike_body hb).method, rfl⟩

end Client

/-! ## Accepted configurations -/

/-- What is made of a list is made of its items one by one. -/
theorem forall₂_of_mapM_ok {α β ε : Type} {f : α → Except ε β} {xs : List α} {ys : List β}
    (h : xs.mapM f = .ok ys) : List.Forall₂ (fun x y => f x = .ok y) xs ys := by
  induction xs generalizing ys with
  | nil =>
    cases h
    exact .nil
  | cons x xs ih =>
    rw [List.mapM_cons] at h
    cases hx : f x with
    | error error => simp [hx, bind, Except.bind] at h
    | ok y =>
      cases hxs : xs.mapM f with
      | error error => simp [hx, hxs, bind, Except.bind] at h
      | ok ys' =>
        simp only [hx, hxs, bind, Except.bind, pure, Except.pure, Except.ok.injEq] at h
        subst h
        exact .cons hx (ih hxs)

theorem exists_of_forall₂ {α β : Type} {R : α → β → Prop} {xs : List α} {ys : List β}
    (h : List.Forall₂ R xs ys) {y : β} (hy : y ∈ ys) : ∃ x ∈ xs, R x y := by
  induction h with
  | nil => exact absurd hy List.not_mem_nil
  | cons hxy _ ih =>
    rcases List.mem_cons.1 hy with rfl | hy
    · exact ⟨_, List.mem_cons_self, hxy⟩
    · obtain ⟨x, hx, hR⟩ := ih hy
      exact ⟨x, List.mem_cons_of_mem _ hx, hR⟩

/-- If no name occurs again, the names differ. -/
theorem nodup_of_repeatedNames {seen names : List String} (h : repeatedNames seen names = []) :
    names.Nodup ∧ ∀ name ∈ names, name ∉ seen := by
  induction names generalizing seen with
  | nil => exact ⟨List.nodup_nil, fun _ hn => absurd hn List.not_mem_nil⟩
  | cons name rest ih =>
    rw [repeatedNames] at h
    split at h
    · exact absurd h (List.cons_ne_nil _ _)
    · rename_i hseen
      have hnew : name ∉ seen := fun hmem => hseen (List.contains_iff_mem.2 hmem)
      obtain ⟨hnodup, hrest⟩ := ih h
      refine ⟨List.nodup_cons.2 ⟨fun hmem => hrest name hmem List.mem_cons_self, hnodup⟩, ?_⟩
      rintro other (_ | ⟨_, hother⟩)
      · exact hnew
      · exact fun hmem => hrest other hother (List.mem_cons_of_mem name hmem)

namespace Config

variable {c : Config}

/-- The strategy that calls of a method follow, up to its identity. -/
def strategy (c : Config) (m : MethodEntry) : Strategy :=
  if m.strategies.isEmpty then .fallback 0 else .merge (m.strategies.filterMap c.table?) 0

/-- The tables of a method are those of its strategies, each of which exists. -/
theorem forall₂_tables {m : MethodEntry} {tables : List Table} (h : c.tables m = .ok tables) :
    List.Forall₂ (fun name t => c.table? name = some t) m.strategies tables := by
  refine (forall₂_of_mapM_ok h).imp fun name t ht => ?_
  cases hn : c.table? name with
  | none => rw [hn] at ht; exact absurd ht (by simp)
  | some t' => rw [hn] at ht; exact congrArg some (Except.ok.inj ht)

theorem filterMap_of_forall₂ {α β : Type} {f : α → Option β} {xs : List α} {ys : List β}
    (h : List.Forall₂ (fun x y => f x = some y) xs ys) : xs.filterMap f = ys := by
  induction h with
  | nil => rfl
  | cons hxy _ ih => rw [List.filterMap_cons_some hxy, ih]

/-- The method of an entry goes the way of the tables that the entry names. -/
theorem method_eq {m : MethodEntry} {cell : Nat} {m' : Method} (h : c.method m cell = .ok m') :
    m'.name = c.fullName m ∧ m'.strategy.routes = (c.strategy m).routes := by
  unfold Config.method at h
  split at h
  swap
  · exact absurd h (by simp)
  rename_i tables ht
  cases h
  have htables := forall₂_tables ht
  have hnil : tables.isEmpty = m.strategies.isEmpty := by
    generalize m.strategies = names at htables
    cases htables <;> rfl
  rw [MethodEntry.method, Method.withTables, strategy, hnil, filterMap_of_forall₂ htables]
  split
  · exact ⟨rfl, rfl⟩
  · exact ⟨rfl, rfl⟩

/-- **What accepted methods make of their calls**: a description bears the name of the method and
goes the way of its tables. -/
theorem described {transport : String} {client : Client} (h : c.newClient transport = .ok client)
    {name : String} {d : Descriptor} (hd : client.Describing name d) :
    ∃ m ∈ c.methods, c.fullName m = name ∧ d.method = name ∧
      d.strategy.routes = (c.strategy m).routes := by
  obtain ⟨m', hm', hmethod, hstrategy⟩ := hd.of_method
  unfold newClient at h
  cases hv : c.validate with
  | error error => simp [hv, bind, Except.bind] at h
  | ok =>
    cases hms : (c.methods.zipIdx 1).mapM fun x => c.method x.1 x.2 with
    | error error => simp [hv, hms, bind, Except.bind] at h
    | ok ms =>
      simp only [hv, hms, bind, Except.bind, pure, Except.pure, Except.ok.injEq] at h
      subst h
      obtain ⟨hmem, hname⟩ := Client.method?_register rfl hm'
      obtain ⟨x, hx, hxm⟩ := exists_of_forall₂ (forall₂_of_mapM_ok hms) hmem
      obtain ⟨hfull, hroutes⟩ := method_eq hxm
      exact ⟨x.1, List.fst_mem_of_mem_zipIdx hx, hfull.symm.trans hname, hmethod.trans hname,
        hstrategy ▸ hroutes⟩

/-- No two methods that were accepted have a name in common. -/
theorem eq_of_fullName {transport : String} {client : Client}
    (h : c.newClient transport = .ok client) {m m' : MethodEntry} (hm : m ∈ c.methods)
    (hm' : m' ∈ c.methods) (hname : c.fullName m = c.fullName m') : m = m' := by
  have hproblems : c.problems = [] := by
    rw [← validate_eq_ok_iff]
    cases hv : c.validate with
    | error error => simp [newClient, hv, bind, Except.bind] at h
    | ok => rfl
  have hnames : repeatedNames [] (c.methods.map c.fullName) = [] := by
    simp only [problems, List.append_eq_nil_iff] at hproblems
    exact List.map_eq_nil_iff.1 hproblems.1.2
  exact List.inj_on_of_nodup_map (nodup_of_repeatedNames hnames).1 hm hm' hname

end Config

/-! ## Calls -/

/-- One verdict was delivered to a task, no mere choice of way, and the caller behind a request has
heard of it. -/
def Engine.Heard {σ : Type} (e : Engine σ) (r : Nat) (t : Task) : Prop :=
  ∃ v, t.delivered.items = [v] ∧ v.isRoute = false ∧ e.answer r = .item v.result

namespace Config

/-- **A call of a configured method that finishes was delivered to at most once, and exactly once if
the strategy of the method leads to a delivery**: for every configuration that is accepted, in every
run of the built-in stages before the engine is told to stop, whatever else is called, and whatever
wire, cache, codec and validator do. -/
theorem delivers_configured {c : Config} {transport : String} {client : Client}
    (hclient : c.newClient transport = .ok client) {setup : EngineSetup} (hsetup : setup.custom = [])
    {σ : Type} {env : Environment σ} {drift : σ → σ → Prop} {world : σ} {e : Engine σ}
    {calls : List (String × Descriptor)} (hcalls : ∀ x ∈ calls, client.Describing x.1 x.2)
    (hrun : Engine.Runs env drift (c.setup setup).blocks world (calls.map Prod.snd) e)
    (hc : e.cancelled = false) {m : MethodEntry} (hm : m ∈ c.methods) {k i : Nat} {d : Descriptor}
    {t : Task} (hk : calls[k]? = some (c.fullName m, d)) (hr : e.replies[k]? = some (.task i))
    (ht : e.tasks[i]? = some t) (hf : t.isFinished = true) :
    (t.delivered.items = [] ∨ e.Heard k t) ∧ ((c.strategy m).Delivers → e.Heard k t) := by
  have hblocks : (c.setup setup).blocks = Stages.block c.engine.window c.engine.retries := by
    rw [EngineSetup.blocks, Config.setup, hsetup]
    rfl
  rw [hblocks] at hrun
  have he := hrun.reachable
  have hheard : ∀ v, t.delivered.items = [v] → v.isRoute = false → e.Heard k t := fun v hv hroute =>
    ⟨v, hv, hroute, (Engine.answer_of_task hr ht).trans (Task.outcome_of_delivered hv)⟩
  refine ⟨(he.posted.once i t ht).imp_right fun ⟨v, hv, hroute⟩ => hheard v hv hroute, fun hd => ?_⟩
  -- the call was given a task of the same method, which was made for a call of the client
  have hkd : (calls.map Prod.snd)[k]? = some d := by rw [List.getElem?_map, hk]; rfl
  obtain ⟨i', t', hr', ht', hsuits⟩ : ∃ (i : Nat) (t : Task), e.replies[k]? = some (.task i) ∧
      e.tasks[i]? = some t ∧ Engine.Suits t d := by
    rcases hrun.answered hc hkd with ⟨hwait, -⟩ | hgiven
    · rw [hr] at hwait
      cases hwait
    · exact hgiven
  rw [hr] at hr'
  cases hr'
  rw [ht] at ht'
  cases ht'
  have hmade : t.descriptor ∈ calls.map Prod.snd := by
    refine (hrun.requests hc).subset (List.mem_append_left _ (List.mem_map_of_mem ?_))
    exact List.mem_of_getElem? (by rw [Array.getElem?_toList]; exact ht)
  obtain ⟨x, hx, hxd⟩ := List.mem_map.1 hmade
  obtain ⟨m₁, hm₁, hname₁, hmethod₁, hroutes₁⟩ := described hclient (hcalls x hx)
  obtain ⟨-, -, -, hmethod, -⟩ := described hclient (hcalls _ (List.mem_of_getElem? hk))
  have hsame : c.fullName m₁ = c.fullName m := by
    rw [hname₁, ← hmethod₁, hxd]
    exact hsuits.method.trans hmethod
  have hmm : m₁ = m := eq_of_fullName hclient hm₁ hm hsame
  have hdt : t.descriptor.strategy.Delivers := hd.of_routes (by rw [← hxd, hroutes₁, hmm])
  obtain ⟨v, hv, hroute⟩ := he.delivered hc ht hf hdt
  exact hheard v hv hroute

/-- Methods with presets that reach the network lead to a delivery, and so do those without
strategies. -/
theorem delivers_presets {c : Config} {m : MethodEntry} {presets : List Preset}
    (hm : m.strategies = presets.map Preset.name)
    (hown : ∀ p ∈ presets, Dict.at? c.strategies p.name = none)
    (hnet : presets = [] ∨ ∃ p ∈ presets, p.reachesNet = true) : (c.strategy m).Delivers := by
  have htables : m.strategies.filterMap c.table? = presets.map Preset.table := by
    rw [hm, List.filterMap_map, ← List.filterMap_eq_map]
    refine List.filterMap_congr fun p hp => ?_
    simp only [Function.comp_apply, table?, hown p hp, Preset.ofName?_name, Option.map_some]
  rw [strategy, htables, hm, List.isEmpty_map]
  split
  · exact Strategy.delivers_fallback 0
  · rename_i hne
    refine Preset.delivers_merge presets 0 (hnet.resolve_left fun hnil => hne ?_)
    rw [hnil, List.isEmpty_nil]

/-- A configuration with one method. -/
def sole (strategies : List String) : Config where
  engine := ⟨some 0, some 1⟩
  client := ⟨none, none⟩
  strategies := []
  methods := [⟨"ping", none, .post, strategies, none, true, false, .standard, []⟩]

/-- The client that it is turned into. -/
def soleClient (strategies : List String) : Client :=
  ((sole strategies).newClient "wire").toOption.getD (.plain "wire")

/-- A call of its method. -/
def soleCall (strategies : List String) : List (String × Descriptor) :=
  (((soleClient strategies).describe 1 "ping" (.ok .null) .any).1.toOption.map fun d => ("ping", d)).toList

theorem describing_soleCall (strategies : List String) :
    ∀ x ∈ soleCall strategies, (soleClient strategies).Describing x.1 x.2 := by
  intro x hx
  rw [soleCall, Option.mem_toList, Option.map_eq_some_iff] at hx
  obtain ⟨d, hd, rfl⟩ := hx
  refine ⟨soleClient strategies, 1, .ok .null, .any, rfl, ?_⟩
  cases hdesc : ((soleClient strategies).describe 1 "ping" (.ok .null) .any).1 with
  | error error => rw [hdesc] at hd; cases hd
  | ok d' => rw [hdesc] at hd; cases hd; rfl

/-- An engine in a world without a wire that was given the call, after some turns. -/
def soleRun (strategies : List String) (actors : List Actor) : Engine Unit :=
  actors.foldl (Engine.turn .crashing)
    (((soleCall strategies).map Prod.snd).foldl (fun e d => (e.submit d).2)
      (Engine.start ((sole strategies).setup (.usual 0)).blocks ()))

theorem runs_soleRun (strategies : List String) (actors : List Actor)
    (hsize : (soleRun strategies actors).replies.size =
      (soleRun strategies []).replies.size) :
    Engine.Runs .crashing (fun _ _ => False) ((sole strategies).setup (.usual 0)).blocks ()
      ((soleCall strategies).map Prod.snd) (soleRun strategies actors) :=
  (Engine.Runs.start.requestAll _).steps (Engine.turns_steps _ _) hsize

/-- A run of a method that leads to a delivery, from its call to the delivery of the error. -/
def answeredTurns : List Actor :=
  [.worker, .loop .initial, .handler 0, .worker, .loop .getFromNet, .handler 1, .supervisor 1,
    .worker, .loop .resolveError, .handler 2, .worker, .loop .deliverError, .handler 3, .worker]

theorem delivers_configured_no_cache :
    (sole ["no_cache"]).newClient "wire" = .ok (soleClient ["no_cache"]) ∧
      (EngineSetup.usual 0).custom = [] ∧
      (∀ x ∈ soleCall ["no_cache"], (soleClient ["no_cache"]).Describing x.1 x.2) ∧
      Engine.Runs .crashing (fun _ _ => False) ((sole ["no_cache"]).setup (.usual 0)).blocks ()
        ((soleCall ["no_cache"]).map Prod.snd) (soleRun ["no_cache"] answeredTurns) ∧
      (soleRun ["no_cache"] answeredTurns).cancelled = false ∧
      ∃ m ∈ (sole ["no_cache"]).methods, ∃ d t,
        (soleCall ["no_cache"])[0]? = some ((sole ["no_cache"]).fullName m, d) ∧
        (soleRun ["no_cache"] answeredTurns).replies[0]? = some (.task 0) ∧
        (soleRun ["no_cache"] answeredTurns).tasks[0]? = some t ∧ t.isFinished = true ∧
        ((sole ["no_cache"]).strategy m).Delivers ∧
        (soleRun ["no_cache"] answeredTurns).Heard 0 t := by
  have hclient : (sole ["no_cache"]).newClient "wire" = .ok (soleClient ["no_cache"]) := rfl
  have hrun := runs_soleRun ["no_cache"] answeredTurns (by decide +kernel)
  have hc : (soleRun ["no_cache"] answeredTurns).cancelled = false := by decide +kernel
  have hr : (soleRun ["no_cache"] answeredTurns).replies[0]? = some (.task 0) := by decide +kernel
  have hm : (sole ["no_cache"]).methods.head (List.cons_ne_nil _ _) ∈ (sole ["no_cache"]).methods :=
    List.head_mem _
  obtain ⟨d, hk⟩ : ∃ d, (soleCall ["no_cache"])[0]? = some ("ping", d) := ⟨_, rfl⟩
  obtain ⟨t, ht, hf⟩ : ∃ t, (soleRun ["no_cache"] answeredTurns).tasks[0]? = some t ∧
      t.isFinished = true := ⟨_, rfl, by decide +kernel⟩
  have hnet : ([.noCache] : List Preset) = [] ∨ ∃ p ∈ [Preset.noCache], p.reachesNet = true :=
    .inr ⟨.noCache, List.mem_cons_self, rfl⟩
  have hd : ((sole ["no_cache"]).strategy
      ((sole ["no_cache"]).methods.head (List.cons_ne_nil _ _))).Delivers :=
    delivers_presets rfl (fun p _ => rfl) hnet
  exact ⟨hclient, rfl, describing_soleCall _, hrun, hc, _, hm, d, t, hk, hr, ht, hf, hd,
    (delivers_configured hclient rfl (describing_soleCall _) hrun hc hm hk hr ht hf).2 hd⟩

/-- **An accepted method that only asks for an authorization is not delivered to**: no stage comes
after the one that checks it. -/
theorem not_delivers_configured_authorized :
    (sole ["authorized_request"]).newClient "wire" = .ok (soleClient ["authorized_request"]) ∧
      (∀ x ∈ soleCall ["authorized_request"],
        (soleClient ["authorized_request"]).Describing x.1 x.2) ∧
      ∃ e, Engine.Runs .crashing (fun _ _ => False)
          ((sole ["authorized_request"]).setup (.usual 0)).blocks ()
          ((soleCall ["authorized_request"]).map Prod.snd) e ∧
        e.cancelled = false ∧ (∃ d, (soleCall ["authorized_request"])[0]? = some ("ping", d)) ∧
        e.replies[0]? = some (.task 0) ∧
        (∃ t, e.tasks[0]? = some t ∧ t.isFinished = true ∧ t.delivered.items = []) ∧
        e.answer 0 =
          .item (.error (.interrupted "task 1 finished without delivering a result")) := by
  refine ⟨rfl, describing_soleCall _, soleRun ["authorized_request"]
    [.worker, .loop .initial, .handler 0, .worker, .loop .checkAuthToken, .handler 1, .worker],
    runs_soleRun _ _ (by decide +kernel), by decide +kernel, ⟨_, rfl⟩, by decide +kernel,
    ⟨_, rfl, by decide +kernel, by decide +kernel⟩, by decide +kernel⟩

end Config
end RpcFlow
