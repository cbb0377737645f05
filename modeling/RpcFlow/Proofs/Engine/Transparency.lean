import RpcFlow.Proofs.Cache.Lifetimes
import RpcFlow.Proofs.Client.Descriptions
import RpcFlow.Proofs.Engine.Backend
import RpcFlow.Proofs.Engine.Delivery
import RpcFlow.Proofs.Engine.Requests
import RpcFlow.Validator

/-!
# Every call gets its own answer

Requests travel alone or in batches, are put off, join tasks under way, are answered from the cache or
sent again.  None of it shows: before a server that answers requests one by one, a caller gets what the
request comes to on its own, unless the transport failed.

* `Engine.Sound` — the invariant: every verdict, every entry of the cache and everything a handler may
  still do is in keeping with what requests come to.
* `Engine.Runs.settles` — every request is settled with what it comes to.
* `Client.transparency` — **every call of a client gets the answer to its own method and parameters**.
-/

set_option autoImplicit false

namespace RpcFlow

namespace Engine

section

variable {σ : Type} {env : Environment σ} {drift : σ → σ → Prop} {e e' : Engine σ}

/-- The outside world changes by itself or by an instruction. -/
theorem Step.world_back (hs : Step env drift e e') :
    e'.world = e.world ∨ drift e.world e'.world ∨
      ∃ index h r, e.handlers[index]? = some h ∧ h.state = .running r ∧
        e' = e.instruct env index r := by
  cases hs with
  | pass now nextTask world _ _ hd => exact .inr (.inl hd)
  | run index h r hx hr => exact .inr (.inr ⟨index, h, r, hx, hr, rfl⟩)
  | submit d => exact .inl (by rw [submit_eq])
  | shutdown => exact .inl (by rw [shutdown_eq])
  | work c rest => exact .inl (by rw [handle_eq])
  | stop => exact .inl (by rw [stopWorker_eq])
  | take stage index rest => exact .inl (by rw [handOne_frame]; rfl)
  | closeWindow stage w => exact .inl (by rw [handWindow_eq]; rfl)
  | rescue index h ending error p => exact .inl (by rw [complete_eq])
  | read index => exact .inl (by rw [readBus_eq])
  | _ => exact .inl rfl

/-- A task waits in a window of the network stage once at most. -/
theorem Underway.nodup_window {window : Duration} {retries : Nat} (h : Underway window retries e)
    (hl : Ledger e)
    (hcourse : ∀ (i : Nat) (t : Task), e.tasks[i]? = some t → OnCourse t.descriptor.strategy)
    {w : OpenWindow} (hw : (e.loop .getFromNet).gathering = some w) : w.members.Nodup := by
  refine List.nodup_iff_count_le_one.2 fun i => ?_
  have hmembers : (e.loop .getFromNet).members = w.members := by
    rw [Loop.members, hw]
    rfl
  rcases Nat.eq_zero_or_pos (w.members.count i) with hzero | hpos
  · omega
  have hstays : 0 < e.stays i .getFromNet := by
    rw [stays, hmembers]
    omega
  obtain ⟨t, ht, -⟩ := hl.exists_task hstays
  obtain ⟨visits, late, hc⟩ := hcourse i t ht
  have hone : (e.ahead i).count .getFromNet ≤ 1 :=
    (h.phases i t visits late ht hc).count_le_one (by decide) (by decide)
  have hgathered : (e.gathered i).count .getFromNet = w.members.count i := by
    rw [gathered, count_flatMap_replicate, hmembers]
  simp only [ahead, List.count_append] at hone
  omega

theorem mem_requests {i : Nat} {t : Task} (ht : e.tasks[i]? = some t) :
    t.descriptor ∈ e.requests := by
  refine List.mem_append_left _ (List.mem_map_of_mem ?_)
  exact Array.mem_toList_iff.2 (Array.mem_of_getElem? ht)

/-- If no two requests have the same id, then no two tasks do. -/
theorem index_of_id (hn : (e.requests.map fun d => d.request.id).Nodup) {i j : Nat} {t u : Task}
    (ht : e.tasks[i]? = some t) (hu : e.tasks[j]? = some u)
    (h : t.descriptor.request.id = u.descriptor.request.id) : i = j := by
  have hids : (e.tasks.toList.map fun t => t.descriptor.request.id).Nodup := by
    rw [requests, List.map_append, List.map_map] at hn
    exact (List.nodup_append.1 hn).1
  obtain ⟨hi, hti⟩ := Array.getElem?_eq_some_iff.1 ht
  obtain ⟨hj, huj⟩ := Array.getElem?_eq_some_iff.1 hu
  have hi' : i < (e.tasks.toList.map fun t => t.descriptor.request.id).length := by simpa using hi
  have hj' : j < (e.tasks.toList.map fun t => t.descriptor.request.id).length := by simpa using hj
  have hsame : (e.tasks.toList.map fun t => t.descriptor.request.id)[i] =
      (e.tasks.toList.map fun t => t.descriptor.request.id)[j] := by
    simp only [List.getElem_map, Array.getElem_toList, hti, huj]
    exact h
  exact hids.getElem_inj_iff.1 hsame

end

/-! ## The invariant -/

section

variable {τ : Type} {B : Backend τ} {known : Descriptor → Prop} {window : Duration} {retries : Nat}
  {e e' : Engine (τ × TimedCache)}

/-- An instruction keeps the cache, unless it writes to it. -/
theorem cached_instruct {env : Environment τ} {index : Nat} {r : Routine} {key : String} {x : CacheEntry}
    (h : Dict.at? (e.instruct env.caching index r).world.2.entries key = some x) :
    Dict.at? e.world.2.entries key = some x ∨
      ∃ value lifetime k, r = .writeCache key value lifetime k ∧ x.value = value := by
  have hend : ∀ ending, (e.endHandler index ending).world = e.world := by
    intro ending
    rw [endHandler_eq]
  cases r with
  | finish ending =>
    have hsame : (e.instruct env.caching index (.finish ending)).world = e.world := hend ending
    exact .inl (hsame ▸ h)
  | look p k =>
    refine .inl ?_
    simp only [instruct] at h
    split at h
    · exact h
    · exact hend .ok ▸ h
  | complete p m k =>
    have hsame : (e.instruct env.caching index (.complete p m k)).world = e.world :=
      (congrArg Engine.world (complete_eq e p m)).trans rfl
    exact .inl (hsame ▸ h)
  | deliver p v k =>
    have hsame : (e.instruct env.caching index (.deliver p v k)).world = e.world :=
      (congrArg Engine.world (deliver_eq e p.task v)).trans rfl
    exact .inl (hsame ▸ h)
  | readCache k' k => exact .inl ((TimedCache.sheds_obtain e.world.2 e.now k').back key x h)
  | writeCache k' value lifetime k =>
    have hput : Dict.at? (Dict.put e.world.2.entries k' ⟨value, e.now.after? lifetime⟩) key =
        some x := h
    rw [Dict.at?_put] at hput
    split at hput
    · rename_i hkey
      cases hput
      exact .inr ⟨value, lifetime, k, by rw [hkey], rfl⟩
    · exact .inl hput
  | _ => exact .inl h

/-- Everything is in keeping with what requests come to: the cache, what handlers may still do, and the
verdicts so far. -/
structure Sound (B : Backend τ) (known : Descriptor → Prop) (e : Engine (τ × TimedCache)) : Prop where
  cache : ∀ key x, Dict.at? e.world.2.entries key = some x → B.Stored known key x.value
  keeps : Compliant (B.contract known) e
  signed : Signed (fun p m => B.Fair p.descriptor m) e

/-- The requests of an engine are known, they have courses, and no two of them have the same id. -/
structure Orderly (known : Descriptor → Prop) (e : Engine (τ × TimedCache)) : Prop where
  requests : ∀ d ∈ e.requests, known d
  courses : ∀ d, known d → OnCourse d.strategy
  ids : (e.requests.map fun d => d.request.id).Nodup

namespace Sound

theorem start (state : τ) (blocks : Stage → Block) :
    Sound B known (Engine.start blocks (state, .empty)) where
  cache := fun key x hx => by cases hx
  keeps := .start _ _
  signed := .start _ _

/-- The results of a task are what its request comes to. -/
theorem holds (h : Sound B known e) (hl : Ledger e) {i : Nat} {t : Task} (ht : e.tasks[i]? = some t)
    {payload : Json} {raw : Option String} {next : List Stage}
    (hv : .success payload raw next ∈ t.results.items) : B.Holds t.descriptor raw payload := by
  obtain ⟨p, hp, hi, -, m, hm, hfair⟩ := h.signed i t ht _ hv
  have hd : p.descriptor = t.descriptor := hl.descriptor_eq hp (hi ▸ ht)
  cases m with
  | succeed payload' raw' =>
    cases hm
    rw [← hd]
    exact hfair
  | _ => cases hm

/-- What a handler is told is what its contract promises. -/
theorem answers (h : Sound B known e) (hb : B.Honest) (hl : Ledger e) {index : Nat} {x : Handler}
    (hx : e.handlers[index]? = some x) :
    e.Answers B.environment (B.contract known x.stage x.promises) where
  sees := by
    intro p view hview hp payload raw next hv
    obtain ⟨t, ht, -, hd⟩ := hl.promised p (mem_issued hx hp)
    rw [view?, ht] at hview
    cases hview
    rw [hd]
    exact h.holds hl ht hv
  fetches := fun transport call => hb e.now transport call e.world.1
  reads := by
    intro key
    have hread : (B.environment.readCache e.now key e.world).1 =
        .done (e.world.2.obtain e.now key).1 := rfl
    rw [hread]
    cases hc : (e.world.2.obtain e.now key).1 with
    | none => exact .inl rfl
    | some raw =>
      obtain ⟨entry, hentry, -, rfl⟩ := TimedCache.obtain_eq_some_iff.1 hc
      exact .inr ⟨_, rfl, h.cache key entry hentry⟩
  stores := fun _ _ _ => rfl
  decodes := fun _ _ => rfl
  validates := fun _ => rfl

end Sound

/-- A handler of a built-in stage begins as its contract allows. -/
theorem Started.settles (hf : B.Family known) (ho : Orderly known e) (hl : Ledger e)
    (hu : Underway window retries e)
    (he : Reachable B.environment Backend.drift (Stages.block window retries) e) {x : Handler}
    (h : Started e e' x) : x.Keeps (B.contract known x.stage x.promises) := by
  have hb := he.blocks_eq
  have hknown : ∀ p ∈ x.promises, known p.descriptor := by
    intro p hp
    obtain ⟨-, -, t, ht, -, hd⟩ := h.promises p hp
    rw [hd]
    exact ho.requests _ (mem_requests ht)
  rcases h.routine with ⟨-, p, hp, hst⟩ | ⟨hw, hst, w, hg, htasks⟩
  · rw [hp] at hknown
    rw [Handler.Keeps, hst, hb, hp]
    exact Backend.obeys_onTask hf window retries x.stage (hknown p List.mem_cons_self)
  · rw [Handler.Keeps, hst]
    rw [hb] at hw ⊢
    -- the network stage is the only one with a window
    have hnet : x.stage = .getFromNet := by
      cases hx : x.stage <;> rw [hx] at hw <;> first | rfl | exact absurd rfl hw
    rw [hnet] at hg ⊢
    have hne : x.promises ≠ [] := by
      intro hnil
      rw [hnil] at htasks
      exact he.window_ne_nil _ w hg htasks.symm
    refine Backend.obeys_onWindow hf window hne hknown ?_
    have hnodup : (x.promises.map Promise.task).Nodup := by
      rw [htasks]
      exact hu.nodup_window hl (fun i t ht => ho.courses _ (ho.requests _ (mem_requests ht))) hg
    refine (List.Nodup.of_map _ hnodup).map_on fun p hp q hq hid => ?_
    obtain ⟨-, -, t, ht, -, hd⟩ := h.promises p hp
    obtain ⟨-, -, u, hu', -, hd'⟩ := h.promises q hq
    rw [hd, hd'] at hid
    exact List.inj_on_of_nodup_map hnodup hp hq (index_of_id ho.ids ht hu' hid)

/-- **Every step is in keeping with what requests come to.** -/
theorem Sound.step (h : Sound B known e) (hb : B.Honest) (hf : B.Family known) (ho : Orderly known e)
    (he : Reachable B.environment Backend.drift (Stages.block window retries) e)
    (hc : e'.cancelled = false) (hs : Step B.environment Backend.drift e e') : Sound B known e' := by
  have hc' := hs.frame.2.1 hc
  have hproper := Stages.proper_block window retries
  have hl := he.ledger hproper hc'
  refine { cache := fun key x hx => ?_, keeps := ?_, signed := ?_ }
  · rcases hs.world_back with hw | hd | ⟨index, y, r, hy, hr, rfl⟩
    · rw [hw] at hx
      exact h.cache key x hx
    · exact h.cache key x (hd key x hx)
    · rw [B.environment_eq] at hx
      rcases cached_instruct hx with hx | ⟨value, lifetime, k, rfl, hvalue⟩
      · exact h.cache key x hx
      · have hkeeps := h.keeps.keeps index y hy
        rw [Handler.Keeps, hr] at hkeeps
        rw [hvalue]
        exact hkeeps.1
  · exact h.keeps.step hl hc hs
      (fun x hx => hx.settles hf ho hl (he.underway hc') he)
      fun index x hx => h.answers hb hl hx
  · refine h.signed.step hl (he.effect hproper hs hc) fun index x p m hx hp ha => ?_
    rcases h.keeps.allows hx ha with hm | ⟨ending, error, hends, herr, -, rfl⟩
    · exact hm
    rcases hends with hstage | hlost
    swap
    · exact .inr (hlost error herr)
    -- the delivery of a result does not fail
    obtain ⟨t, ht, -, hd⟩ := hl.promised p (mem_issued hx hp)
    have hcourse : OnCourse p.descriptor.strategy :=
      hd ▸ ho.courses _ (ho.requests _ (mem_requests ht))
    have hps : p.stage = .deliverResult := (h.keeps.stages index x hx p hp).trans hstage
    rcases he.stageMove hc' hx hp ha with hm | ⟨-, -, -, hne⟩
    · rw [hps] at hm
      exact absurd (show Move.fail error = .follow true from hm) (by simp)
    · exact absurd hps (hne hcourse)

/-! ## Every run -/

section

variable {state : τ} {ds : List Descriptor}
  (hrun : Runs B.environment Backend.drift (Stages.block window retries) (state, .empty) ds e)
  (hc : e.cancelled = false) (hds : ∀ d ∈ ds, known d) (hcourse : ∀ d, known d → OnCourse d.strategy)
  (hn : (ds.map fun d => d.request.id).Nodup)
include hrun hc hds hcourse hn

theorem Runs.orderly : Orderly known e where
  requests := fun d hd => hds d ((hrun.requests hc).subset hd)
  courses := hcourse
  ids := nodup_map_of_subperm (hrun.requests hc) hn

variable (hb : B.Honest) (hf : B.Family known)
include hb hf

theorem Runs.sound : Sound B known e := by
  induction hrun with
  | start => exact .start state _
  | @request ds e d hr ih =>
    have hs : Step B.environment Backend.drift e (e.submit d).2 := .submit e d
    have hc' := hs.frame.2.1 hc
    have hds' : ∀ d' ∈ ds, known d' := fun d' hd' => hds d' (List.mem_append_left _ hd')
    have hn' : (ds.map fun d => d.request.id).Nodup := by
      rw [List.map_append] at hn
      exact (List.nodup_append.1 hn).1
    exact (ih hc' hds' hn').step hb hf (hr.orderly hc' hds' hcourse hn') hr.reachable hc hs
  | step hr hs hsize ih =>
    have hc' := hs.frame.2.1 hc
    exact (ih hc' hds hn).step hb hf (hr.orderly hc' hds hcourse hn) hr.reachable hc hs

/-- **Every request is settled with what it comes to on its own**, or with a failure of the
transport. -/
theorem Runs.settles {k i : Nat} {d : Descriptor} {result : Except CallError Json}
    (hk : ds[k]? = some d) (hr : e.replies[k]? = some (.task i)) (ho : e.outcome i = .item result) :
    result = B.direct d ∨ ∃ error, B.lost error ∧ result = .error error := by
  have hproper := Stages.proper_block window retries
  have hreach := hrun.reachable
  have hl := hreach.ledger hproper hc
  have hsound := hrun.sound hc hds hcourse hn hb hf
  -- the task that the request was given has the same key
  obtain ⟨t, ht, hsuits⟩ := hrun.suits hc hk hr
  have hknown : known t.descriptor := hds _ ((hrun.requests hc).subset (mem_requests ht))
  have hsame : B.direct t.descriptor = B.direct d :=
    hf.coherent _ _ hknown (hds d (List.mem_of_getElem? hk)) hsuits.cacheKey
  obtain ⟨visits, late, hcourse⟩ := hcourse _ hknown
  have hphase := (hreach.underway hc).phases i t visits late ht hcourse
  rw [outcome, ht] at ho
  simp only [Task.outcome, ReplayLog.read] at ho
  cases hfirst : t.delivered.items[0]? with
  | none =>
    -- a task that has finished has been delivered to
    rw [hfirst] at ho
    have hnil : t.delivered.items = [] := by simpa using hfirst
    have hfinished : t.isFinished = true := by
      rw [← (hreach.closings hproper hc).closed i t ht]
      cases hdone : t.delivered.completed with
      | true => rfl
      | false => rw [hdone] at ho; cases ho
    rw [hl.ahead_of_held ht ((hl.finished i t ht).1 hfinished)] at hphase
    obtain ⟨v, hv, -⟩ := hphase.delivered_of_nil
    rw [hnil] at hv
    exact absurd hv (by simp)
  | some v =>
    rw [hfirst] at ho
    cases ho
    obtain ⟨hv, hroute⟩ := hphase.recorded_of_delivered (List.mem_of_getElem? hfirst)
    obtain ⟨p, hp, hi, -, m, rfl, hfair⟩ := hsound.signed i t ht v hv
    rw [hl.descriptor_eq hp (hi ▸ ht)] at hfair
    rw [← hsame]
    cases m with
    | succeed payload raw => exact .inl hfair.result.symm
    | fail error => exact hfair.imp Eq.symm fun hlost => ⟨error, hlost, rfl⟩
    | follow success => exact Bool.noConfusion hroute
    | goTo next => exact Bool.noConfusion hroute

end

end

end Engine

/-! ## Calls of a client -/

/-- A method whose calls post their bodies and reach the network. -/
structure Method.Posts (m : Method) : Prop where
  http : m.http = .post
  strategy : ∃ (presets : List Preset) (cell : Nat), (∃ p ∈ presets, p.reachesNet = true) ∧
    m.strategy = Strategy.merge (presets.map Preset.table) cell

namespace Client

variable {τ : Type} {B : Backend τ} {ms : List Method} {base : Client} {id : Nat}
  {calls : List (String × Params)}

/-- The calls of a client are fit for an honest server: the key of a call says to which method and with
which parameters it is made. -/
theorem family (hms : ∀ m ∈ ms, m.Posts) (hbase : base.methods = [])
    (hid : id + calls.length ≤ UInt64.size) :
    B.Family fun d => ∃ x ∈ (ms.foldl register base).describeAll id calls, x.descriptor = d where
  posts := by
    rintro _ ⟨x, hx, rfl⟩
    obtain ⟨m, value, hm, -, hd⟩ := describes_of_mem hx
    rw [hd.http]
    exact (hms m (method?_register hbase hm).1).http
  flat := by
    rintro _ ⟨x, hx, rfl⟩
    obtain ⟨m, value, -, -, hd⟩ := describes_of_mem hx
    exact hd.flat
  type := by
    rintro _ ⟨x, hx, rfl⟩
    obtain ⟨m, value, -, -, hd⟩ := describes_of_mem hx
    exact hd.type
  id := by
    rintro _ ⟨x, hx, rfl⟩
    have hlt := (id_of_mem hx).2
    omega
  size := by
    rintro _ ⟨x, hx, rfl⟩
    obtain ⟨m, value, -, -, hd⟩ := describes_of_mem hx
    exact hd.size
  coherent := by
    rintro _ _ ⟨x, hx, rfl⟩ ⟨y, hy, rfl⟩ hkey
    obtain ⟨m, value, hm, -, hd⟩ := describes_of_mem hx
    obtain ⟨m', value', hm', -, hd'⟩ := describes_of_mem hy
    rw [hd.cacheKey, hd'.cacheKey] at hkey
    obtain ⟨-, hmethod, hparams⟩ := Request.text_inj hkey
    have hmethod : x.descriptor.request.method = y.descriptor.request.method := hmethod
    have hparams : x.descriptor.request.params.map Json.render =
        y.descriptor.request.params.map Json.render := hparams
    -- a method is found under the name that the request bears
    have hnames : x.name = y.name := by
      rw [← (method?_register hbase hm).2, ← (method?_register hbase hm').2]
      rw [(Method.alike_body hd.body).method, (Method.alike_body hd'.body).method] at hmethod
      exact hmethod
    rw [hnames, hm'] at hm
    cases hm
    rw [Backend.direct, Backend.direct, hd.envelope, hd'.envelope, hmethod, hparams]

/-- **Every call of a client gets the answer to its own method and parameters**, unwrapped, read and
validated, or a failure of the transport: in every run before the engine is told to stop, whatever else
is called, however calls travel, and whichever tasks they share. -/
theorem transparency (hb : B.Honest) (hms : ∀ m ∈ ms, m.Posts) (hbase : base.methods = [])
    (hid : id + calls.length ≤ UInt64.size) {made : List Described}
    (hmade : made.Subperm ((ms.foldl register base).describeAll id calls)) {window : Duration}
    {retries : Nat} {state : τ} {e : Engine (τ × TimedCache)}
    (hrun : Engine.Runs B.environment Backend.drift (Stages.block window retries) (state, .empty)
      (made.map Described.descriptor) e)
    (hc : e.cancelled = false) {k i : Nat} {x : Described} {result : Except CallError Json}
    (hk : made[k]? = some x) (hr : e.replies[k]? = some (.task i)) (ho : e.outcome i = .item result) :
    ∃ m value, (ms.foldl register base).method? x.name = some m ∧ x.params = .ok value ∧
      m.body x.descriptor.request.id value = .ok x.descriptor.request ∧
      (result = B.judge m.envelope
          (.obj (B.answer x.name (x.descriptor.request.params.map Json.render))) ∨
        ∃ error, B.lost error ∧ result = .error error) := by
  have hx : x ∈ (ms.foldl register base).describeAll id calls :=
    hmade.subset (List.mem_of_getElem? hk)
  obtain ⟨m, value, hm, hp, hd⟩ := describes_of_mem hx
  have hname : x.descriptor.request.method = x.name :=
    (Method.alike_body hd.body).method.trans (method?_register hbase hm).2
  refine ⟨m, value, hm, hp, hd.body, ?_⟩
  have hdirect : B.direct x.descriptor = B.judge m.envelope
      (.obj (B.answer x.name (x.descriptor.request.params.map Json.render))) := by
    rw [Backend.direct, hd.envelope, hname]
  rw [← hdirect]
  refine hrun.settles hc ?_ ?_ ?_ hb (family hms hbase hid) ?_ hr ho
  · intro d hd
    obtain ⟨y, hy, rfl⟩ := List.mem_map.1 hd
    exact ⟨y, hmade.subset hy, rfl⟩
  · rintro _ ⟨y, hy, rfl⟩
    obtain ⟨m', value', hm', -, hd'⟩ := describes_of_mem hy
    obtain ⟨presets, cell, hpresets, hstrategy⟩ := (hms m' (method?_register hbase hm').1).strategy
    obtain ⟨p, hcourse⟩ := Preset.exists_course presets cell hpresets
    rw [hd'.strategy, hstrategy]
    exact ⟨_, _, hcourse⟩
  · rw [List.map_map]
    exact nodup_map_of_subperm hmade (nodup_ids _ _ _)
  · rw [List.getElem?_map, hk]
    rfl

/-! ## A server that knows one method -/

/-- The text of the first request for `ping`. -/
def pingText : String := "\x7b\"id\":1,\"jsonrpc\":\"2.0\",\"method\":\"ping\"\x7d"

/-- A server that is reached by the first request for `ping` only. -/
def pong : Backend Unit where
  fetch := fun _ _ call _ =>
    if call.body = some pingText then
      (.ofMillis 0, .answered ⟨"\x7b\"id\":1,\"result\":\"pong\"\x7d", []⟩, ())
    else (.ofMillis 0, .failed (.io "unreachable"), ())
  decode := Codec.standard.decode
  validate := Validator.acceptAll.validate
  answer := fun method _ =>
    if method = "ping" then [("result", .str "pong")] else [("error", .str "unknown method")]
  lost := fun error => error = .network "unreachable"

theorem honest_pong : pong.Honest := by
  intro now transport call s
  by_cases hcall : call.body = some pingText
  swap
  · have hfetch : pong.fetch now transport call s =
        (.ofMillis 0, .failed (.io "unreachable"), ()) := if_neg hcall
    rw [hfetch]
    rfl
  have hfetch : pong.fetch now transport call s =
      (.ofMillis 0, .answered ⟨"\x7b\"id\":1,\"result\":\"pong\"\x7d", []⟩, ()) := if_pos hcall
  rw [hfetch]
  refine ⟨fun r _ hbody => ?_, fun rs _ _ hbody => ?_⟩
  · have htext : r.text = (Request.bare 1 "ping").text := by
      rw [← Option.some.inj (hcall.symm.trans hbody)]
      decide +kernel
    obtain ⟨hid, hmethod, -⟩ := Request.text_inj htext
    have hreply : pong.reply r = .obj [("id", .int 1), ("result", .str "pong")] := by
      have hreply' : pong.reply (Request.bare 1 "ping") =
          .obj [("id", .int 1), ("result", .str "pong")] := by decide +kernel
      rw [← hreply', Backend.reply, Backend.reply, hid, hmethod]
      rfl
    rw [hreply]
    decide +kernel
  · -- the request is not an array
    have htext : pingText = (Request.bare 1 "ping").text := by decide +kernel
    rw [hcall, htext, String.append_assoc] at hbody
    exact absurd (Option.some.inj hbody) (Request.text_ne_array _ _)

/-- Two calls of `ping` by a client that knows no other method. -/
def pings : List Described :=
  ([Method.plain "ping" 0].foldl register (.plain "wire")).describeAll 1
    [("ping", .ok .null), ("ping", .ok .null)]

/-- An engine that was given both calls. -/
def pinged : Engine (Unit × TimedCache) :=
  (pings.map Described.descriptor).foldl (fun e d => (e.submit d).2)
    (Engine.start (Stages.block (.ofMillis 0) 1) ((), .empty))

/-- The engine after it has sent one request for both. -/
def ponged : Engine (Unit × TimedCache) :=
  [.worker, .loop .initial, .handler 0, .worker, .loop .getFromNet, .loop .getFromNet, .handler 1,
    .worker, .loop .deliverResult, .handler 2, .worker].foldl (Engine.turn pong.environment) pinged

/-- The second call shares the task of the first, and gets its own answer all the same. -/
theorem transparency_ponged :
    pong.Honest ∧ (∀ m ∈ [Method.plain "ping" 0], m.Posts) ∧ (plain "wire").methods = [] ∧
      Engine.Runs pong.environment Backend.drift (Stages.block (.ofMillis 0) 1) ((), .empty)
        (pings.map Described.descriptor) ponged ∧
      ponged.cancelled = false ∧ ponged.replies[1]? = some (.task 0) ∧
      ponged.outcome 0 = .item (.ok (.str "pong")) ∧
      ∃ x, pings[1]? = some x ∧ ∃ m value,
        ([Method.plain "ping" 0].foldl register (plain "wire")).method? x.name = some m ∧
        x.params = .ok value ∧ m.body x.descriptor.request.id value = .ok x.descriptor.request ∧
        (.ok (.str "pong") = pong.judge m.envelope
            (.obj (pong.answer x.name (x.descriptor.request.params.map Json.render))) ∨
          ∃ error, pong.lost error ∧ .ok (Json.str "pong") = Except.error error) := by
  have hms : ∀ m ∈ [Method.plain "ping" 0], m.Posts := by
    intro m hm
    rw [List.mem_singleton.1 hm]
    exact ⟨rfl, [.noCache], 0, ⟨.noCache, List.mem_cons_self, rfl⟩, rfl⟩
  have hbase : (plain "wire").methods = [] := rfl
  have hpinged : Engine.Runs pong.environment Backend.drift (Stages.block (.ofMillis 0) 1)
      ((), .empty) (pings.map Described.descriptor) pinged := Engine.Runs.start.requestAll _
  have hsteps : Engine.Steps pong.environment Backend.drift pinged ponged :=
    Engine.Steps.mono (fun _ _ h => h.elim) (Engine.turns_steps _ _)
  have hrun := hpinged.steps hsteps (by decide +kernel)
  have hc : ponged.cancelled = false := by decide +kernel
  have hr : ponged.replies[1]? = some (.task 0) := by decide +kernel
  have ho : ponged.outcome 0 = .item (.ok (.str "pong")) := by decide +kernel
  obtain ⟨x, hx⟩ : ∃ x, pings[1]? = some x := Option.isSome_iff_exists.1 (by decide +kernel)
  exact ⟨honest_pong, hms, hbase, hrun, hc, hr, ho, x, hx,
    transparency honest_pong hms hbase (by decide) (List.Subperm.refl pings) hrun hc hx hr ho⟩

end Client
end RpcFlow
