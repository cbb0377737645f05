import Mathlib.Data.List.Nodup
import RpcFlow.Proofs.Engine.BuiltIn
import RpcFlow.Proofs.Engine.Matching
import RpcFlow.Proofs.Request.Text
import RpcFlow.TimedCache

/-!
# A server that answers requests one by one

The server here answers a request by its method and its parameters alone, whatever else travels on the
same call, and names it in its answer by its id.  What a request comes to is then settled before it is
sent, and every stage that has to do with the outside world can be held to that: it finds, keeps and
records nothing else.

* `Backend` — such a server, with a cache in memory and a reader and a validator without a state;
  `Backend.environment` — the outside world that they make up.
* `Backend.direct` — what a request comes to on its own.
* `Backend.Honest` — what is asked of the server and its transport.
* `Backend.contract`, `Backend.obeys_onTask`, `Backend.obeys_onWindow` — the built-in stages settle
  requests with what they come to.
-/

set_option autoImplicit false

namespace RpcFlow

/-- An outside world with a cache in memory in the place of its own. -/
def Environment.caching {τ : Type} (env : Environment τ) : Environment (τ × TimedCache) where
  fetch := fun now transport call w =>
    ((env.fetch now transport call w.1).1, (env.fetch now transport call w.1).2.1,
      ((env.fetch now transport call w.1).2.2, w.2))
  readCache := fun now key w => (.done (w.2.obtain now key).1, (w.1, (w.2.obtain now key).2))
  writeCache := fun now key value lifetime w =>
    (.done (), (w.1, w.2.store now key value lifetime))
  decode := fun body type w => ((env.decode body type w.1).1, ((env.decode body type w.1).2, w.2))
  validate := fun value w => ((env.validate value w.1).1, ((env.validate value w.1).2, w.2))

/-- A server behind a transport, a cache in memory, a reader of results and a validator; and what the
server and the transport are meant to do. -/
structure Backend (τ : Type) where
  fetch : Moment → String → WireCall → τ → Duration × WireOutcome × τ
  decode : Option String → ResultType → Except CallError Json
  validate : Json → Except CallError Unit
  /-- The members of the answer to a method with parameters, as these are written. -/
  answer : String → Option String → Dict Json
  /-- The failures of the transport. -/
  lost : CallError → Prop

namespace Backend

variable {τ : Type}

/-- The outside world: the state of the server and the cache. -/
def environment (B : Backend τ) : Environment (τ × TimedCache) where
  fetch := fun now transport call w =>
    ((B.fetch now transport call w.1).1, (B.fetch now transport call w.1).2.1,
      ((B.fetch now transport call w.1).2.2, w.2))
  readCache := fun now key w => (.done (w.2.obtain now key).1, (w.1, (w.2.obtain now key).2))
  writeCache := fun now key value lifetime w =>
    (.done (), (w.1, w.2.store now key value lifetime))
  decode := fun body type w => (.ofExcept (B.decode body type), w)
  validate := fun value w => (.ofExcept (B.validate value), w)

/-- The outside world without the cache. -/
def outside (B : Backend τ) : Environment τ where
  fetch := B.fetch
  readCache := fun _ _ w => (.done none, w)
  writeCache := fun _ _ _ _ w => (.done (), w)
  decode := fun body type w => (.ofExcept (B.decode body type), w)
  validate := fun value w => (.ofExcept (B.validate value), w)

theorem environment_eq (B : Backend τ) : B.environment = B.outside.caching := rfl

/-- The second cache has no entry that the first did not have. -/
def Fades (c c' : TimedCache) : Prop :=
  ∀ key x, Dict.at? c'.entries key = some x → Dict.at? c.entries key = some x

/-- Between the steps of an engine the server may change and cached entries may be dropped. -/
def drift (w w' : τ × TimedCache) : Prop := Fades w.2 w'.2

variable (B : Backend τ)

/-! ## What a request comes to -/

/-- The outcome of an answer: unwrapped, read and validated. -/
def judge (form : Envelope) (answer : Json) : Except CallError Json :=
  match form.unwrap answer with
  | .error (.declared text) => .error (Stages.declaredError text)
  | .error (.malformed reason) => .error (.conversion reason)
  | .ok raw => do
    let payload ← B.decode raw .any
    B.validate payload
    return payload

/-- What a request comes to on its own. -/
def direct (d : Descriptor) : Except CallError Json :=
  B.judge d.envelope (.obj (B.answer d.request.method (d.request.params.map Json.render)))

/-- The reply to a request: the answer, with the id of the request. -/
def reply (r : Request) : Json :=
  .obj (Dict.put (B.answer r.method (r.params.map Json.render)) "id" (.int r.id))

/-- What may come of a call.  One request is answered with its reply, and several requests with their
replies in any order. -/
def Reacts (call : WireCall) : WireOutcome → Prop
  | .failed error => B.lost error.toCallError
  | .crashed message => B.lost (.crashed message)
  | .answered response =>
    (∀ r : Request, r.id < UInt64.size → call.body = some r.text →
      B.decode (some response.body) .any = .ok (B.reply r)) ∧
    ∀ rs : List Request, rs ≠ [] → (∀ r ∈ rs, r.id < UInt64.size) →
      call.body = some ("[" ++ ",".intercalate (rs.map Request.text) ++ "]") →
      ∃ replies, B.decode (some response.body) .vecValue = .ok (.arr replies) ∧
        replies.Perm (rs.map B.reply)

/-- The server answers every request as it is meant to, whenever it is reached. -/
def Honest : Prop :=
  ∀ now transport call s, B.Reacts call (B.fetch now transport call s).2.1

/-- The id in a reply has no say in what the reply comes to. -/
theorem unwrap_reply (form : Envelope) (members : Dict Json) (id : Json) :
    form.unwrap (.obj (Dict.put members "id" id)) = form.unwrap (.obj members) := by
  have herror : Dict.at? (Dict.put members "id" id) "error" = Dict.at? members "error" :=
    Dict.at?_put_of_ne members id (by decide)
  have hresult : Dict.at? (Dict.put members "id" id) "result" = Dict.at? members "result" :=
    Dict.at?_put_of_ne members id (by decide)
  simp only [Envelope.unwrap, Envelope.opened, Envelope.declaredError?, Json.get?, herror]
  split <;> simp only [bind, Except.bind, hresult]

theorem entryId?_reply (r : Request) : Batch.entryId? (B.reply r) = some r.id := by
  have hid : (B.reply r).get? "id" = some (.int r.id) := Dict.at?_put_self _ _ _
  rw [Batch.entryId?, hid, Option.bind_some, Json.nat?, if_pos (Int.natCast_nonneg _),
    Int.toNat_natCast]

/-! ## What stages may do -/

/-- Requests that are posted and take any result, of which those with equal keys come to the same. -/
structure Family (known : Descriptor → Prop) : Prop where
  posts : ∀ d, known d → d.http = .post
  flat : ∀ d, known d → d.flat = d.request.text
  type : ∀ d, known d → d.resultType = .any
  id : ∀ d, known d → d.request.id < UInt64.size
  size : ∀ d, known d → 1 ≤ d.maxBatchSize
  coherent : ∀ d d', known d → known d' → d.cacheKey = d'.cacheKey → B.direct d = B.direct d'

/-- A text that is read as the result of a request. -/
structure Holds (d : Descriptor) (raw : Option String) (payload : Json) : Prop where
  reads : B.decode raw .any = .ok payload
  result : B.direct d = .ok payload

/-- A text that may be kept under a key: the result of every request with that key. -/
def Stored (known : Descriptor → Prop) (key raw : String) : Prop :=
  ∀ d, known d → d.cacheKey = key → ∃ payload, B.Holds d (some raw) payload

/-- A move that settles a request with what it comes to, or with a failure of the transport. -/
def Fair (d : Descriptor) : Move → Prop
  | .succeed payload raw => B.Holds d raw payload
  | .fail error => B.direct d = .error error ∨ B.lost error
  | .follow _ | .goTo _ => True

/-- The contract of a built-in stage before an honest server. -/
def contract (known : Descriptor → Prop) (s : Stage) (ps : List Promise) : Contract where
  promises := ps
  uses p m := B.Fair p.descriptor m
  delivers _ _ := True
  writes key value _ := B.Stored known key value
  ends ending := s = .deliverResult ∨ ∀ error, ending.error? = some error → B.lost error
  sees p view := p ∈ ps → ∀ payload raw next, .success payload raw next ∈ view.task.results.items →
    B.Holds p.descriptor raw payload
  fetches _ call x := B.Reacts call x
  reads key x := x = .done none ∨ ∃ raw, x = .done (some raw) ∧ B.Stored known key raw
  stores x := x = .done ()
  decodes body type x := x = .ofExcept (B.decode body type)
  validates value x := x = .ofExcept (B.validate value)

variable {B} {known : Descriptor → Prop} {s : Stage} {ps qs : List Promise} {p : Promise}
  {k : Routine}

/-! ## The network stage -/

theorem ofExcept_ne_crashed {α : Type} {x : Except CallError α} {message : String} :
    Outcome.crashed message ≠ .ofExcept x := by
  cases x <;> simp [Outcome.ofExcept]

/-- The moves that a reply may lead to are fair. -/
theorem fair_of_judged {d : Descriptor} (ht : d.resultType = .any) {m : Move}
    (h : Stages.Judged (B.contract known s ps) d (B.reply d.request) m) : B.Fair d m := by
  have hdirect : B.direct d = B.judge d.envelope (B.reply d.request) := by
    rw [direct, judge, judge, reply, unwrap_reply]
  have hfailed : ∀ {α : Type} {x : Except CallError α} {error : CallError},
      .failed error = Outcome.ofExcept x → x = .error error := by
    intro α x error hx
    cases x with
    | error e => cases hx; rfl
    | ok a => cases hx
  have hdone : ∀ {α : Type} {x : Except CallError α} {a : α},
      .done a = Outcome.ofExcept x → x = .ok a := by
    intro α x a hx
    cases x with
    | error e => cases hx
    | ok b => cases hx; rfl
  cases h with
  | declared text hu => exact .inl (by rw [hdirect, judge, hu])
  | malformed reason hu => exact .inl (by rw [hdirect, judge, hu])
  | undecoded raw error hu hd =>
    rw [ht] at hd
    refine .inl ?_
    rw [hdirect, judge, hu]
    simp only [hfailed hd, bind, Except.bind]
  | invalid raw payload error hu hd hv =>
    rw [ht] at hd
    refine .inl ?_
    rw [hdirect, judge, hu]
    simp only [hdone hd, hfailed hv, bind, Except.bind]
  | valid raw payload hu hd hv =>
    rw [ht] at hd
    refine ⟨hdone hd, ?_⟩
    rw [hdirect, judge, hu]
    simp only [hdone hd, hdone hv, bind, Except.bind, pure, Except.pure]

variable (hf : B.Family known)
include hf

theorem obeys_settleWith (hp : p ∈ ps) (hd : known p.descriptor)
    (hk : k.Obeys (B.contract known s ps)) :
    (Stages.settleWith p (B.reply p.descriptor.request) k).Obeys (B.contract known s ps) :=
  Stages.obeys_settleWith hp (fun _ => fair_of_judged (hf.type _ hd))
    (fun _ _ _ h => absurd h ofExcept_ne_crashed) (fun _ _ h => absurd h ofExcept_ne_crashed) hk

/-- A request that travels alone. -/
theorem obeys_sendAlone (hp : p ∈ ps) (hd : known p.descriptor)
    (hk : k.Obeys (B.contract known s ps)) :
    (Stages.sendAlone p k).Obeys (B.contract known s ps) := by
  intro x hx
  cases x with
  | crashed message => exact .inr (.inr fun error he => by cases he; exact hx)
  | failed error => exact Stages.obeys_settle hp (.inr hx) hk
  | answered response =>
    have hbody : (Batch.singleCall p).body = some p.descriptor.request.text := by
      rw [Batch.singleCall, hf.posts _ hd, hf.flat _ hd]
    intro y hy
    have hreply : y = .done (B.reply p.descriptor.request) :=
      hy.trans (congrArg Outcome.ofExcept (hx.1 _ (hf.id _ hd) hbody))
    subst hreply
    exact obeys_settleWith hf hp hd hk

/-- Requests that find their replies among the entries of an answer. -/
theorem obeys_settleEach {entries : Batch.Entries} (hq : qs ⊆ ps)
    (hd : ∀ q ∈ qs, known q.descriptor)
    (hn : (qs.map fun q => q.descriptor.request.id).Nodup)
    (hfound : ∀ q ∈ qs,
      entries.lookup q.descriptor.request.id = some (B.reply q.descriptor.request)) :
    (Stages.settleEach entries qs).Obeys (B.contract known s ps) := by
  induction qs generalizing entries with
  | nil =>
    have hend : (Routine.finish .ok).Obeys (B.contract known s ps) := .inl rfl
    exact Stages.obeys_reportAll hend _
  | cons q qs ih =>
    rw [Stages.settleEach, Batch.takeEntry_of_lookup (hfound q List.mem_cons_self)]
    refine obeys_settleWith hf (hq List.mem_cons_self) (hd q List.mem_cons_self)
      (ih ?_ ?_ (List.nodup_cons.1 hn).2 (Batch.lookup_takeEntry hn hfound))
    · exact fun r hr => hq (List.mem_cons_of_mem q hr)
    · exact fun r hr => hd r (List.mem_cons_of_mem q hr)

/-- Requests that travel together. -/
theorem obeys_sendTogether (headers : Dict String) (hne : qs ≠ []) (hq : qs ⊆ ps)
    (hd : ∀ q ∈ qs, known q.descriptor)
    (hn : (qs.map fun q => q.descriptor.request.id).Nodup) :
    (Stages.sendTogether qs headers).Obeys (B.contract known s ps) := by
  have hbody : (Batch.combinedCall qs headers).body = some ("[" ++ ",".intercalate
      ((qs.map fun q => q.descriptor.request).map Request.text) ++ "]") := by
    have htexts : qs.map (fun q => q.descriptor.flat) =
        (qs.map fun q => q.descriptor.request).map Request.text := by
      rw [List.map_map]
      exact List.map_congr_left fun q hm => hf.flat _ (hd q hm)
    rw [Batch.combinedCall, htexts]
  have hids : ∀ r ∈ qs.map (fun q => q.descriptor.request), r.id < UInt64.size := by
    intro r hr
    obtain ⟨q, hm, rfl⟩ := List.mem_map.1 hr
    exact hf.id _ (hd q hm)
  have hn' : ((qs.map fun q => q.descriptor.request).map Request.id).Nodup := by
    rw [List.map_map]
    exact hn
  have hmem : ∀ q ∈ qs, q.descriptor.request ∈ qs.map fun q => q.descriptor.request :=
    fun q hm => List.mem_map.2 ⟨q, hm, rfl⟩
  obtain ⟨q, rest, rfl⟩ := List.exists_cons_of_ne_nil hne
  intro x hx
  cases x with
  | crashed message => exact .inr (.inr fun error he => by cases he; exact hx)
  | failed error => exact Stages.obeys_failAll fun q hm => ⟨hq hm, .inr hx⟩
  | answered response =>
    refine Stages.obeys_announceAll _ ?_ _
    intro y hy
    obtain ⟨replies, hdecode, hperm⟩ := hx.2 _ (List.cons_ne_nil _ _) hids hbody
    have hreplies : y = .done (.arr replies) := hy.trans (congrArg Outcome.ofExcept hdecode)
    subst hreplies
    exact Stages.obeys_reportAll (obeys_settleEach hf hq hd hn fun q hm =>
      Batch.lookup_of_perm hperm hn' (fun r _ => entryId?_reply B r) (hmem q hm)) _

/-- What the network stage does with a window. -/
theorem obeys_onWindow (window : Duration) (hne : ps ≠ []) (hd : ∀ p ∈ ps, known p.descriptor)
    (hn : (ps.map fun p => p.descriptor.request.id).Nodup) :
    ((Stages.network window).onWindow ps).Obeys (B.contract known s ps) := by
  refine Stages.obeys_sendWindow (C := B.contract known s ps)
    (fun p hp => obeys_sendAlone hf hp (hd p hp) (.inl rfl)) (fun _ _ => trivial) fun sorting => ?_
  have hsent := sorting.sent_sublist
  exact obeys_sendTogether hf sorting.merged
    (sorting.nonempty hne fun p hp => hf.size _ (hd p hp)) hsent.subset
    (fun q hq => hd q (hsent.subset hq)) (hn.sublist (hsent.map _))

/-! ## All stages -/

omit hf in
/-- The last success of a task is one of its results. -/
theorem mem_of_cachedText? {t : Task} {raw : String} (h : Stages.cachedText? t = some raw) :
    ∃ payload next, .success payload (some raw) next ∈ t.results.items := by
  unfold Stages.cachedText? at h
  split at h
  · rename_i payload raw' next hlast
    subst h
    exact ⟨payload, next, List.mem_reverse.1 (List.mem_of_find?_eq_some hlast)⟩
  · cases h

/-- What a stage does with one task. -/
theorem obeys_onTask (window : Duration) (retries : Nat) (s : Stage) (hd : known p.descriptor) :
    ((Stages.block window retries s).onTask p).Obeys (B.contract known s [p]) := by
  have hp : p ∈ [p] := List.mem_cons_self
  have hend : ∀ D : Contract, (Routine.finish .ok).Obeys D := fun _ => .inl rfl
  cases s with
  | initial => exact Stages.obeys_settle hp trivial (hend _)
  | checkAuthToken => exact Stages.obeys_settle hp trivial (hend _)
  | getFromNet => exact obeys_sendAlone hf hp hd (hend _)
  | getFromCache =>
    intro x hx
    rcases hx with rfl | ⟨raw, rfl, hstored⟩
    · exact Stages.obeys_settle hp trivial (hend _)
    · obtain ⟨payload, hholds⟩ := hstored p.descriptor hd rfl
      intro y hy
      rw [hf.type _ hd] at hy
      have hpayload : y = .done payload := hy.trans (congrArg Outcome.ofExcept hholds.reads)
      subst hpayload
      exact Stages.obeys_settle hp hholds (hend _)
  | saveToCache =>
    refine ⟨hp, fun view hview => ?_⟩
    simp only
    split
    · exact Stages.obeys_settle hp trivial (hend _)
    · rename_i raw hraw
      obtain ⟨payload, next, hmem⟩ := mem_of_cachedText? hraw
      have hholds := hview hp payload _ next hmem
      refine ⟨fun d hd' hkey => ⟨payload, hholds.reads, ?_⟩, fun x hx => ?_⟩
      · rw [hf.coherent d p.descriptor hd' hd hkey]
        exact hholds.result
      · subst hx
        exact Stages.obeys_settle hp trivial (hend _)
  | deliverResult =>
    refine ⟨hp, fun view _ => ?_⟩
    simp only
    split
    · exact .inr (.inl rfl)
    · exact ⟨⟨hp, trivial⟩, fun _ => Stages.obeys_settle hp trivial (hend _)⟩
  | deliverError =>
    exact ⟨hp, fun view _ => ⟨⟨hp, trivial⟩, fun _ => Stages.obeys_settle hp trivial (hend _)⟩⟩
  | resolveError =>
    refine ⟨hp, fun view _ => ?_⟩
    simp only
    split
    · exact Stages.obeys_settle hp trivial (hend _)
    · exact Stages.obeys_settle hp trivial (hend _)

end Backend
end RpcFlow
