import RpcFlow.Proofs.Engine.Records
import RpcFlow.Proofs.Engine.Transparency

/-!
# What is found in the cache came from the network

The stage that writes to the cache takes the last success of its task, and that may itself have been
found in the cache; strategies may send tasks to both stages in any order and at the same time, and other
tasks read and write under the same keys.  Still every text in the cache was brought by the network
stage for a request with the key of the entry, and has passed every check: nothing else ever enters the
circle.

The circle is broken by taking the texts that the network stage has brought as one among many sets of
texts.  A set that has all of them is never left, and the smallest such set is the set of these texts.

* `Environment.Passes` — what a text must come to before it counts as a result; `Entry.Brings`,
  `Brought` — the texts that the network stage has brought so far.
* `Stages.sourced` — a handler that gets texts of a set from the cache and from results puts none but
  such texts into either.
* `Engine.Sourced`, `Engine.Annals.sourced` — no set that has all texts of the network stage is left.
* `Engine.Provenance`, `Engine.cached_from_network` — **what a task finds in the cache, the network has
  brought for a request with the same method and the same canonical body**.
-/

set_option autoImplicit false

namespace RpcFlow
namespace Environment

variable {σ : Type} (env : Environment σ)

/-- A transport may answer a call so, at some time and in some state of the world. -/
def MayFetch (transport : String) (call : WireCall) (x : WireOutcome) : Prop :=
  ∃ now w, (env.fetch now transport call w).2.1 = x

/-- A body may be read so as a value of a type. -/
def MayDecode (body : Option String) (type : ResultType) (x : Outcome Json) : Prop :=
  ∃ w, (env.decode body type w).1 = x

/-- A value may be validated so. -/
def MayValidate (value : Json) (x : Outcome Unit) : Prop := ∃ w, (env.validate value w).1 = x

/-- What a text must come to before the network stage records it as the result of a request: it was
unwrapped from an answer to the request that came in on a call, it reads as a value of the declared type,
and the value was found valid. -/
structure Passes (p : Promise) (raw : Option String) (payload : Json) : Prop where
  unwrapped : ∃ answer, Stages.Arrived env.MayFetch env.MayDecode p answer ∧
    p.descriptor.envelope.unwrap answer = .ok raw
  reads : env.MayDecode raw p.descriptor.resultType (.done payload)
  valid : env.MayValidate payload (.done ())

end Environment

/-- An entry of a history by which the network stage recorded a text under a key, as a success. -/
structure Entry.Brings {σ : Type} (env : Environment σ) (x : Entry) (key text : String) : Prop where
  stage : x.promise.stage = .getFromNet
  key : x.promise.descriptor.cacheKey = key
  verdict : ∃ payload next, x.verdict = .success payload (some text) next ∧
    env.Passes x.promise (some text) payload

/-- The texts that the network stage has brought under each key. -/
def Brought {σ : Type} (env : Environment σ) (history : List Entry) (key text : String) : Prop :=
  ∃ x ∈ history, x.Brings env key text

theorem Brought.mono {σ : Type} {env : Environment σ} {history more : List Entry} {key text : String}
    (h : Brought env history key text) : Brought env (history ++ more) key text := by
  obtain ⟨x, hx, hbrings⟩ := h
  exact ⟨x, List.mem_append_left _ hx, hbrings⟩

namespace Stages

variable {τ : Type} {env : Environment τ} {S : String → String → Prop} {s : Stage}
  {ps : List Promise}

/-- The contract of a stage that keeps to a set of texts: it records as results what it has checked, or
texts of the set that it found in the cache, and writes texts of the set. -/
def sourced (env : Environment τ) (S : String → String → Prop) (s : Stage) (ps : List Promise) :
    Contract :=
  { Contract.own ps with
    uses := fun p m => ∀ payload raw, m = .succeed payload raw →
      s = .getFromNet ∧ env.Passes p raw payload ∨
      s = .getFromCache ∧ ∃ text, raw = some text ∧ S p.descriptor.cacheKey text ∧
        env.MayDecode (some text) p.descriptor.resultType (.done payload)
    writes := fun key text _ => S key text
    sees := fun p view => p ∈ ps → ∀ payload text next,
      .success payload (some text) next ∈ view.task.results.items → S p.descriptor.cacheKey text
    fetches := env.MayFetch
    reads := fun key x => ∀ text, x = .done (some text) → S key text
    decodes := env.MayDecode
    validates := env.MayValidate }

/-- The network stage records what has passed. -/
theorem allowsNetwork_sourced : AllowsNetwork (sourced env S .getFromNet ps) where
  fails _ _ _ _ h := Move.noConfusion h
  judged p answer m ha hm payload raw h := by
    subst h
    cases hm with
    | valid _ _ hu hd hv => exact .inl ⟨rfl, ⟨answer, ha, hu⟩, hd, hv⟩
  back _ _ _ h := Move.noConfusion h
  ends _ := trivial

theorem sourced_onTask (env : Environment τ) (S : String → String → Prop) (window : Duration)
    (retries : Nat) (s : Stage) (p : Promise) :
    ((block window retries s).onTask p).Obeys (sourced env S s [p]) := by
  have hp : p ∈ [p] := List.mem_cons_self
  have hend : ∀ s, (Routine.finish .ok).Obeys (sourced env S s [p]) := fun _ => .inl rfl
  -- moves that record no result are free
  have hfollow : ∀ s b, (settle p (.follow b) (.finish .ok)).Obeys (sourced env S s [p]) :=
    fun s b => obeys_settle hp (fun _ _ h => Move.noConfusion h) (hend s)
  cases s with
  | initial => exact hfollow _ true
  | checkAuthToken => exact hfollow _ true
  | getFromNet => exact obeys_sendAlone allowsNetwork_sourced hp (hend _)
  | getFromCache =>
    intro x hx
    cases x with
    | crashed message => exact .inr trivial
    | failed error => exact hfollow _ false
    | done found =>
      cases found with
      | none => exact hfollow _ false
      | some text =>
        intro y hy
        cases y with
        | crashed message => exact .inr trivial
        | failed error => exact hfollow _ false
        | done payload =>
          refine obeys_settle hp (fun payload' raw h => ?_) (hend _)
          cases h
          exact .inr ⟨rfl, text, rfl, hx text rfl, hy⟩
  | saveToCache =>
    refine ⟨hp, fun view hview => ?_⟩
    simp only
    split
    · exact hfollow _ true
    · rename_i text htext
      obtain ⟨payload, next, hmem⟩ := Backend.mem_of_cachedText? htext
      refine ⟨hview hp payload text next hmem, fun x _ => ?_⟩
      cases x with
      | crashed message => exact .inr trivial
      | failed error => exact hfollow _ true
      | done u => exact hfollow _ true
  | deliverResult =>
    refine ⟨hp, fun view _ => ?_⟩
    simp only
    split
    · exact .inr trivial
    · exact ⟨⟨hp, trivial⟩, fun _ => hfollow _ true⟩
  | deliverError => exact ⟨hp, fun view _ => ⟨⟨hp, trivial⟩, fun _ => hfollow _ true⟩⟩
  | resolveError =>
    refine ⟨hp, fun view _ => ?_⟩
    simp only
    split
    · exact obeys_settle hp (fun _ _ h => Move.noConfusion h) (hend _)
    · exact obeys_settle hp (fun _ _ h => Move.noConfusion h) (hend _)

theorem sourced_onWindow (env : Environment τ) (S : String → String → Prop) {window : Duration}
    {retries : Nat} {s : Stage} (hw : (block window retries s).window ≠ none) (ps : List Promise) :
    ((block window retries s).onWindow ps).Obeys (sourced env S s ps) := by
  cases s with
  | getFromNet => exact obeys_network (C := sourced env S .getFromNet ps) allowsNetwork_sourced
  | _ => exact absurd rfl hw

end Stages

namespace Engine

variable {τ : Type} {env : Environment τ} {window : Duration} {retries : Nat} {state : τ}
  {S : String → String → Prop} {history : List Entry} {e₀ e e' : Engine (τ × TimedCache)}

/-! ## Sets of texts that are not left -/

/-- Everything is in a set of texts: the cache, the results of tasks, and what handlers may still put
into either. -/
structure Sourced (env : Environment τ) (S : String → String → Prop) (e : Engine (τ × TimedCache)) :
    Prop where
  cache : ∀ key x, Dict.at? e.world.2.entries key = some x → S key x.value
  results : ∀ (i : Nat) (t : Task), e.tasks[i]? = some t → ∀ payload text next,
    .success payload (some text) next ∈ t.results.items → S t.descriptor.cacheKey text
  keeps : ∀ (index : Nat) (x : Handler), e.handlers[index]? = some x →
    x.Keeps (Stages.sourced env S x.stage x.promises)

namespace Sourced

theorem start (state : τ) (blocks : Stage → Block) :
    Sourced env S (Engine.start blocks (state, .empty)) where
  cache := fun key x hx => by cases hx
  results := fun i t ht => by simp [Engine.start] at ht
  keeps := fun index x hx => by simp [Engine.start] at hx

/-- What a handler is told is what its contract promises. -/
theorem answers (h : Sourced env S e) (hg : Granted e) {index : Nat} {x : Handler}
    (hx : e.handlers[index]? = some x) :
    e.Answers env.caching (Stages.sourced env S x.stage x.promises) where
  sees := by
    intro p view hview hp payload text next hv
    obtain ⟨t, ht, hd⟩ := hg.tasks p (mem_issued hx hp)
    rw [view?, ht] at hview
    cases hview
    rw [hd]
    exact h.results p.task t ht payload text next hv
  fetches := fun _ _ => ⟨_, _, rfl⟩
  reads := by
    intro key text htext
    have hfound : (e.world.2.obtain e.now key).1 = some text := Outcome.done.inj htext
    obtain ⟨entry, hentry, -, rfl⟩ := TimedCache.obtain_eq_some_iff.1 hfound
    exact h.cache key entry hentry
  stores := fun _ _ _ => trivial
  decodes := fun _ _ => ⟨_, rfl⟩
  validates := fun _ => ⟨_, rfl⟩

/-- What a handler is about to record is a text that has passed, or a text of the set. -/
theorem about (h : Sourced env S e)
    (hstages : ∀ (index : Nat) (x : Handler), e.handlers[index]? = some x → ∀ p ∈ x.promises,
      p.stage = x.stage)
    {index : Nat} {x : Handler} {p : Promise} {m : Move} (hx : e.handlers[index]? = some x)
    (hp : p ∈ x.promises) (ha : x.AboutTo p m) {payload : Json} {raw : Option String}
    {next : List Stage} (hv : p.verdict m = .success payload raw next) :
    p.stage = .getFromNet ∧ env.Passes p raw payload ∨
      p.stage = .getFromCache ∧ ∃ text, raw = some text ∧ S p.descriptor.cacheKey text ∧
        env.MayDecode (some text) p.descriptor.resultType (.done payload) := by
  have hm : m = .succeed payload raw := by
    cases m with
    | succeed payload' raw' => cases hv; rfl
    | fail error => cases hv
    | follow success => cases hv
    | goTo next' => cases hv
  rw [hstages index x hx p hp]
  rcases (h.keeps index x hx).allows ha with huse | ⟨ending, error, -, -, -, rfl⟩
  · exact huse payload raw hm
  · cases hm

end Sourced

section

variable (h : Annals env.caching Backend.drift
  (Engine.start (Stages.block window retries) (state, .empty)) history e)
include h

theorem Annals.reachable_caching :
    Reachable env.caching Backend.drift (Stages.block window retries) e :=
  (Reachable.start (state, TimedCache.empty)).steps h.steps

/-- **A set that has all texts of the network stage is never left.** -/
theorem Annals.sourced (hS : ∀ key text, Brought env history key text → S key text) :
    Sourced env S e := by
  induction h generalizing S with
  | start => exact .start state _
  | @step history e e' h hs ih =>
    have hproper := Stages.proper_block window retries
    have he := h.reachable_caching
    have hg := he.granted hproper
    have hsourced : Sourced env S e := ih fun key text hb => hS key text hb.mono
    refine { cache := fun key x hx => ?_, results := ?_, keeps := ?_ }
    · rcases hs.world_back with hw | hd | ⟨index, y, r, hy, hr, rfl⟩
      · rw [hw] at hx
        exact hsourced.cache key x hx
      · exact hsourced.cache key x (hd key x hx)
      · rcases cached_instruct hx with hx | ⟨text, lifetime, k, rfl, hvalue⟩
        · exact hsourced.cache key x hx
        · have hkeeps := hsourced.keeps index y hy
          rw [Handler.Keeps, hr] at hkeeps
          rw [hvalue]
          exact hkeeps.1
    · intro i t' ht' payload text next hv
      cases hs.recording he hproper with
      | none hspent htasks =>
        rcases htasks i t' ht' with hnil | ⟨t, ht, hd, hr⟩
        · rw [hnil] at hv
          exact absurd hv List.not_mem_nil
        · rw [hd]
          exact hsourced.results i t ht payload text next (hr ▸ hv)
      | use index x p m hx hp ha ho hspent htasks =>
        obtain ⟨t, ht, hd, hr⟩ := htasks i t' ht'
        rw [hd]
        rw [hr] at hv
        split at hv
        · rename_i hpi
          rcases List.mem_append.1 hv with hv | hv
          · exact hsourced.results i t ht payload text next hv
          · have hverdict := (List.mem_singleton.1 hv).symm
            have hkey : p.descriptor = t.descriptor := by
              obtain ⟨u, hu, hd'⟩ := hg.tasks p (mem_issued hx hp)
              rw [hpi, ht] at hu
              cases hu
              exact hd'
            rcases hsourced.about (he.stages hproper) hx hp ha hverdict with
              ⟨hnet, hpass⟩ | ⟨-, text', heq, hin, -⟩
            · -- the network stage has just brought the text
              refine hS _ _ ⟨⟨p, p.verdict m⟩, ?_, hnet, congrArg Descriptor.cacheKey hkey, ?_⟩
              · rw [hspent]
                exact List.mem_append_right _ List.mem_cons_self
              · exact ⟨payload, next, hverdict, hpass⟩
            · cases heq
              rw [← hkey]
              exact hin
        · exact hsourced.results i t ht payload text next hv
    · intro index x hx
      refine hs.keeps (C := Stages.sourced env S) ?_ ?_ ?_ hsourced.keeps hx
      · exact fun s p _ => he.blocks_eq ▸ Stages.sourced_onTask env S window retries s p
      · intro s ps hw
        rw [he.blocks_eq] at hw ⊢
        exact Stages.sourced_onWindow env S hw ps
      · exact fun index x hx => hsourced.answers hg hx

end

end Engine

/-! ## What tasks find -/

/-- A descriptor that was built from a request. -/
def Descriptor.Built (d : Descriptor) : Prop :=
  ∃ codec request transport cell o, Descriptor.build codec request transport cell o = .ok d

/-- Descriptors with one key are of one method and one canonical body. -/
theorem Descriptor.Built.agree {d d' : Descriptor} (h : d.Built) (h' : d'.Built)
    (hkey : d.cacheKey = d'.cacheKey) :
    d.method = d'.method ∧ d.request.canonical.text = d'.request.canonical.text := by
  obtain ⟨codec, request, transport, cell, o, hbuild⟩ := h
  obtain ⟨codec', request', transport', cell', o', hbuild'⟩ := h'
  obtain ⟨flat, key, -, hk, rfl⟩ := Descriptor.eq_of_build hbuild
  obtain ⟨flat', key', -, hk', rfl⟩ := Descriptor.eq_of_build hbuild'
  have htext : request.canonical.text = request'.canonical.text :=
    (Client.encode_eq hk).symm.trans (hkey.trans (Client.encode_eq hk'))
  exact ⟨(Request.text_inj htext).2.1, htext⟩

/-- What a request may find in the cache: the value of a text that the network stage has brought for a
request with the same key, and so with the same method and the same canonical body. -/
def Traced {σ : Type} (env : Environment σ) (history : List Entry) (d : Descriptor) (payload : Json)
    (raw : Option String) : Prop :=
  ∃ text, raw = some text ∧ env.MayDecode (some text) d.resultType (.done payload) ∧
    ∃ y ∈ history, y.Brings env d.cacheKey text ∧
      (y.promise.descriptor.Built → d.Built → y.promise.descriptor.method = d.method ∧
        y.promise.descriptor.request.canonical.text = d.request.canonical.text)

namespace Engine

variable {τ : Type} {env : Environment τ} {window : Duration} {retries : Nat} {state : τ}
  {history : List Entry} {e : Engine (τ × TimedCache)}

/-- Where the texts of a cache come from, and what tasks find in it. -/
structure Provenance (env : Environment τ) (history : List Entry) (e : Engine (τ × TimedCache)) :
    Prop where
  /-- Every text in the cache was brought by the network stage under its key. -/
  entries : ∀ key x, Dict.at? e.world.2.entries key = some x → Brought env history key x.value
  /-- What a task finds in the cache was brought before. -/
  hits : ∀ before x after, history = before ++ x :: after → x.promise.stage = .getFromCache →
    ∀ payload raw next, x.verdict = .success payload raw next →
      Traced env before x.promise.descriptor payload raw
  /-- Every entry of the history is about a task that there is, and bears its request. -/
  descriptors : ∀ x ∈ history, ∃ t, e.tasks[x.promise.task]? = some t ∧
    t.descriptor = x.promise.descriptor
  /-- The results of a task are what the history says of it. -/
  results : ∀ (i : Nat) (t : Task), e.tasks[i]? = some t → recorded history i = t.results.items

/-- What a task finds in the cache was brought before. -/
theorem Annals.traced (h : Annals env.caching Backend.drift
      (Engine.start (Stages.block window retries) (state, .empty)) history e)
    {before after : List Entry} {x : Entry} (hx : history = before ++ x :: after)
    (hcache : x.promise.stage = .getFromCache) {payload : Json} {raw : Option String}
    {next : List Stage} (hv : x.verdict = .success payload raw next) :
    Traced env before x.promise.descriptor payload raw := by
  induction h generalizing after with
  | start => exact absurd hx (by simp)
  | @step history e e' h hs ih =>
    have hproper := Stages.proper_block window retries
    have he := h.reachable_caching
    cases hs.recording he hproper with
    | none hspent =>
      rw [hspent, List.append_nil] at hx
      exact ih hx
    | use index y p m hy hp ha ho hspent htasks =>
      rw [hspent] at hx
      rcases List.eq_nil_or_concat after with rfl | ⟨rest, z, rfl⟩
      · -- the entry is the last one
        obtain ⟨rfl, hlast⟩ := List.append_inj' hx rfl
        obtain rfl : (⟨p, p.verdict m⟩ : Entry) = x := List.head_eq_of_cons_eq hlast
        have hsourced := h.sourced (S := Brought env history) fun _ _ hb => hb
        rcases hsourced.about (he.stages hproper) hy hp ha hv with
          ⟨hnet, -⟩ | ⟨-, text, hraw, ⟨y, hy, hbrings⟩, hdecode⟩
        · rw [hcache] at hnet
          cases hnet
        · exact ⟨text, hraw, hdecode, y, hy, hbrings, fun hb hb' => hb.agree hb' hbrings.key⟩
      · have hinit : history ++ [⟨p, p.verdict m⟩] = (before ++ x :: rest) ++ [z] := by
          simpa using hx
        exact ih (List.append_inj' hinit rfl).1

/-- **What a task finds in the cache, the network has brought** for a request with the same method and
the same canonical body: in every state of every run that begins with an empty cache in memory, whatever
the strategies of the requests, the results of other stages and the answers of the outside world. -/
theorem cached_from_network (h : Annals env.caching Backend.drift
      (Engine.start (Stages.block window retries) (state, .empty)) history e) :
    Provenance env history e where
  entries := (h.sourced fun _ _ hb => hb).cache
  hits _ _ _ hx hcache _ _ _ hv := h.traced hx hcache hv
  descriptors := h.descriptors (.start (state, TimedCache.empty)) (Stages.proper_block window retries)
  results _ _ ht := h.results (Stages.proper_block window retries) ht

/-- A call of `ping` that is looked for in the cache first. -/
def storedPing (id : Nat) : Descriptor :=
  { ping with
    query := [(methodQuery, "ping")]
    request := .bare id "ping"
    flat := (Request.bare id "ping").text
    cacheKey := (Request.bare 0 "ping").text
    strategy := .merge [Preset.priorityCache.table] 0 }

theorem built_storedPing (id : Nat) : (storedPing id).Built :=
  ⟨.standard, .bare id "ping", "wire", 0,
    { Descriptor.Options.plain with strategy := some (.merge [Preset.priorityCache.table] 0) }, rfl⟩

/-- An engine that has called once, and has found the result of the first call when it was asked for a
second one. -/
def stored : Engine (Unit × TimedCache) :=
  [.worker, .loop .initial, .handler 5, .worker, .loop .getFromCache, .handler 6].foldl
    (turn Client.pong.environment)
    (([.worker, .loop .initial, .handler 0, .worker, .loop .getFromCache, .handler 1, .worker,
        .loop .getFromNet, .loop .getFromNet, .handler 2, .worker, .loop .deliverResult, .handler 3,
        .loop .saveToCache, .handler 4, .worker].foldl (turn Client.pong.environment)
      ((Engine.start (Stages.block (.ofMillis 0) 1) ((), .empty)).submit (storedPing 1)).2).submit
        (storedPing 2)).2

theorem cached_from_network_stored :
    (∀ id, (storedPing id).Built) ∧
      ∃ history, Annals Client.pong.outside.caching Backend.drift
          (Engine.start (Stages.block (.ofMillis 0) 1) ((), .empty)) history stored ∧
        Provenance Client.pong.outside history stored ∧
        recorded history 1 =
          [.route [.getFromCache], .success (.str "pong") (some "\"pong\"") [.deliverResult]] := by
  have hsteps : Steps Client.pong.outside.caching Backend.drift
      (Engine.start (Stages.block (.ofMillis 0) 1) ((), .empty)) stored :=
    .trans (.trans (.trans (.single (.submit _ _))
      (Steps.mono (fun _ _ h => h.elim) (turns_steps _ _))) (.single (.submit _ _)))
      (Steps.mono (fun _ _ h => h.elim) (turns_steps _ _))
  obtain ⟨history, h⟩ := Annals.exists_of_steps hsteps
  have hfound := cached_from_network h
  obtain ⟨t, ht, hresults⟩ : ∃ t, stored.tasks[1]? = some t ∧ t.results.items =
      [.route [.getFromCache], .success (.str "pong") (some "\"pong\"") [.deliverResult]] :=
    Option.map_eq_some_iff.1 (by decide +kernel)
  exact ⟨built_storedPing, history, h, hfound, (hfound.results 1 t ht).trans hresults⟩

end Engine
end RpcFlow
