import RpcFlow.Proofs.Engine.Matching
import RpcFlow.Proofs.Engine.Windows
import RpcFlow.Proofs.Request.Text
import RpcFlow.Validator

/-!
# Alone or together

A request that shares a call finds its answer by its id among the entries of an array, and the
answer is then read as if it had come alone.  So what a task is given does not depend on the company
it travels in, as long as the server answers each request on its own and names it by its id.

* `Reader` — a reader of results and a validator that answer the same question alike every time;
  `Reader.appraise` — what an answer comes to before them.
* `received?` — the verdict that a task is given by a handler, or by the supervisor if the handler
  crashes.
* `Reader.Serves` — a transport that answers each request on its own.
* `Reader.together_as_alone` — **a task is given the same verdict on a combined call as alone.**
-/

set_option autoImplicit false

namespace RpcFlow

/-! ## What a task is given -/

/-- The verdict that a promise is given by a deed. -/
def Deed.given? (p : Promise) : Deed → Option Verdict
  | used q m done => if done && q.number == p.number then some (q.verdict m) else none
  | called .. => none

/-- The verdict that a promise is given by its handler or else, if the handler ends with an error,
by the supervisor. -/
def received? (p : Promise) (deeds : List Deed) (ending : Ending) : Option Verdict :=
  (deeds.findSome? (Deed.given? p)).or (ending.error?.map fun error => p.verdict (.fail error))

section

variable {p q : Promise} {m : Move} {deeds : List Deed} {ending : Ending}

theorem received?_called (transport : String) (call : WireCall) :
    received? p (.called transport call :: deeds) ending = received? p deeds ending := rfl

theorem received?_used_self : received? p (.used p m true :: deeds) ending = some (p.verdict m) := by
  simp [received?, Deed.given?]

theorem received?_used_of_ne {done : Bool} (h : q.number ≠ p.number) :
    received? p (.used q m done :: deeds) ending = received? p deeds ending := by
  simp [received?, Deed.given?, h]

end

/-! ## What an answer comes to -/

/-- A reader of results and a validator, without a state. -/
structure Reader where
  decode : Option String → ResultType → Outcome Json
  validate : Json → Outcome Unit

namespace Reader

variable (R : Reader)

/-- The move that an answer leads to, or the message of the crash. -/
def appraise (d : Descriptor) (answer : Json) : Except String Move :=
  match d.envelope.unwrap answer with
  | .error (.declared text) => .ok (.fail (Stages.declaredError text))
  | .error (.malformed reason) => .ok (.fail (.conversion reason))
  | .ok raw =>
    match R.decode raw d.resultType with
    | .crashed message => .error message
    | .failed error => .ok (.fail error)
    | .done payload =>
      match R.validate payload with
      | .crashed message => .error message
      | .failed error => .ok (.fail error)
      | .done _ => .ok (.succeed payload raw)

/-- An answer that is read and checked without a crash. -/
def Reads (d : Descriptor) (answer : Json) : Prop := ∃ m, R.appraise d answer = .ok m

/-- The verdict that an answer leads to; a crash is a failure too. -/
def verdict (p : Promise) (answer : Json) : Verdict :=
  match R.appraise p.descriptor answer with
  | .ok m => p.verdict m
  | .error message => p.verdict (.fail (.crashed message))

/-- A reaction to a call: each of some requests that comes alone is answered with its own answer,
and all of them together with these answers in any order. -/
structure Serves (answer : Request → Json) (ps : List Promise) (call : WireCall) (x : WireOutcome) :
    Prop where
  alone : ∀ p ∈ ps, call.body = some p.descriptor.flat → ∃ response, x = .answered response ∧
    R.decode (some response.body) .any = .done (answer p.descriptor.request)
  together : call.body = some ("[" ++ ",".intercalate (ps.map fun p => p.descriptor.flat) ++ "]") →
    ∃ response entries, x = .answered response ∧
      R.decode (some response.body) .vecValue = .done (.arr entries) ∧
      entries.Perm (ps.map fun p => answer p.descriptor.request)

/-- The contract of a world with this reader and one transport that serves some requests. -/
def contract (answer : Request → Json) (transport : String) (ps : List Promise) : Contract :=
  { Contract.own ps with
    fetches := fun name call x => name = transport → R.Serves answer ps call x
    decodes := fun body type x => x = R.decode body type
    validates := fun value x => x = R.validate value }

/-- Under a contract, results are read and checked by this reader. -/
structure Backs (C : Contract) : Prop where
  decodes : ∀ body type x, C.decodes body type x → x = R.decode body type
  validates : ∀ value x, C.validates value x → x = R.validate value

variable {R} {answer : Request → Json} {transport : String} {ps qs : List Promise} {p : Promise}
  {isOpen : Promise → Bool} {Q : List Deed → Ending → Prop} {k : Routine}

theorem backs_contract : R.Backs (R.contract answer transport ps) := ⟨fun _ _ _ => id, fun _ _ => id⟩

theorem ensures_settleWith {C : Contract} (hC : R.Backs C) {x : Json}
    (crash : ∀ message, R.appraise p.descriptor x = .error message → Q [] (.crashed message))
    (hk : ∀ m, R.appraise p.descriptor x = .ok m →
      k.Ensures C (closing isOpen p) fun deeds ending => Q (.used p m (isOpen p) :: deeds) ending) :
    (Stages.settleWith p x k).Ensures C isOpen Q := by
  simp only [appraise] at crash hk
  simp only [Stages.settleWith]
  split
  · rename_i text h
    rw [h] at hk
    exact hk _ rfl
  · rename_i reason h
    rw [h] at hk
    exact hk _ rfl
  · rename_i raw h
    simp only [h] at crash hk
    intro y hy
    obtain rfl := hC.decodes _ _ _ hy
    cases hd : R.decode raw p.descriptor.resultType with
    | crashed message => exact crash message (by rw [hd])
    | failed error => exact hk _ (by rw [hd])
    | done payload =>
      simp only [hd] at crash hk
      intro z hz
      obtain rfl := hC.validates _ _ hz
      cases hv : R.validate payload with
      | crashed message => exact crash message (by rw [hv])
      | failed error => exact hk _ (by rw [hv])
      | done u => exact hk _ (by rw [hv])

/-! ## One after the other -/

/-- Promises are used in order, each with what the answer to its request comes to, until one
crashes. -/
inductive Settles (R : Reader) (answer : Request → Json) :
    List Promise → List Deed → Ending → Prop
  | nil : Settles R answer [] [] .ok
  | used (p : Promise) (ps : List Promise) (m : Move) (deeds : List Deed) (ending : Ending) :
    R.appraise p.descriptor (answer p.descriptor.request) = .ok m →
    Settles R answer ps deeds ending → Settles R answer (p :: ps) (.used p m true :: deeds) ending
  | crashed (p : Promise) (ps : List Promise) (message : String) :
    R.appraise p.descriptor (answer p.descriptor.request) = .error message →
    Settles R answer (p :: ps) [] (.crashed message)

/-- A task is given what the answer to its request comes to, if those before it do not crash. -/
theorem Settles.received {deeds : List Deed} {ending : Ending} (h : Settles R answer ps deeds ending)
    (hn : (ps.map Promise.number).Nodup) {front back : List Promise} (hps : ps = front ++ p :: back)
    (hfront : ∀ q ∈ front, R.Reads q.descriptor (answer q.descriptor.request)) :
    received? p deeds ending = some (R.verdict p (answer p.descriptor.request)) := by
  induction h generalizing front with
  | nil => simp at hps
  | crashed q ps message hq =>
    cases front with
    | nil =>
      cases hps
      rw [verdict, hq]
      rfl
    | cons r front =>
      cases hps
      obtain ⟨m, hm⟩ := hfront q List.mem_cons_self
      rw [hm] at hq
      cases hq
  | used q ps m deeds ending hq _ ih =>
    rw [List.map_cons, List.nodup_cons] at hn
    cases front with
    | nil =>
      cases hps
      rw [received?_used_self, verdict, hq]
    | cons r front =>
      cases hps
      have hne : q.number ≠ p.number := fun heq =>
        hn.1 (heq ▸ List.mem_map_of_mem (List.mem_append_right _ List.mem_cons_self))
      rw [received?_used_of_ne hne]
      exact ih hn.2 rfl fun r hr => hfront r (List.mem_cons_of_mem q hr)

/-- Open promises that find the answers to their requests among the entries of an array. -/
theorem ensures_settleEach {entries : Batch.Entries}
    (hids : (qs.map fun q => q.descriptor.request.id).Nodup)
    (hfound : ∀ q ∈ qs,
      entries.lookup q.descriptor.request.id = some (answer q.descriptor.request))
    (hn : (qs.map Promise.number).Nodup) (hopen : ∀ q ∈ qs, isOpen q = true)
    (hQ : ∀ deeds ending, Settles R answer qs deeds ending → Q deeds ending) :
    (Stages.settleEach entries qs).Ensures (R.contract answer transport ps) isOpen Q := by
  induction qs generalizing entries isOpen Q with
  | nil =>
    have hend : (Routine.finish .ok).Ensures (R.contract answer transport ps) isOpen Q :=
      hQ [] .ok .nil
    exact Stages.ensures_reportAll hend _
  | cons q qs ih =>
    rw [Stages.settleEach, Batch.takeEntry_of_lookup (hfound q List.mem_cons_self)]
    refine ensures_settleWith backs_contract (fun message hm => hQ _ _ (.crashed q qs message hm))
      fun m hm => ?_
    rw [hopen q List.mem_cons_self]
    exact ih (List.nodup_cons.1 hids).2 (Batch.lookup_takeEntry hids hfound)
      (List.nodup_cons.1 hn).2 (open_closing hn hopen)
      fun deeds ending h => hQ _ _ (.used q qs m deeds ending hm h)

/-! ## Alone and together -/

/-- A request that travels alone is given what its answer comes to. -/
theorem ensures_sendAlone (hp : p ∈ ps) (hpost : p.descriptor.http = .post)
    (htransport : p.descriptor.transport = transport) (hopen : isOpen p = true)
    (hQ : ∀ deeds ending, Settles R answer [p] deeds ending →
      Q (.called p.descriptor.transport (Batch.singleCall p) :: deeds) ending) :
    (Stages.sendAlone p (.finish .ok)).Ensures (R.contract answer transport ps) isOpen Q := by
  intro x hx
  have hbody : (Batch.singleCall p).body = some p.descriptor.flat := by
    rw [Batch.singleCall, hpost]
  obtain ⟨response, rfl, hdecode⟩ := (hx htransport).alone p hp hbody
  intro y hy
  have hanswer : y = .done (answer p.descriptor.request) := hy.trans hdecode
  subst hanswer
  refine ensures_settleWith backs_contract (fun message hm => hQ _ _ (.crashed p [] message hm))
    fun m hm => ?_
  rw [hopen]
  exact hQ _ _ (.used p [] m [] .ok hm .nil)

theorem entryId?_of_named {x : Json} {id : Nat} (h : x.get? "id" = some (.int id)) :
    Batch.entryId? x = some id := by
  rw [Batch.entryId?, h, Option.bind_some, Json.nat?, if_pos (Int.natCast_nonneg _),
    Int.toNat_natCast]

/-- Requests that travel together are given, in order, what their answers come to. -/
theorem ensures_sendTogether (headers : Dict String) (hne : ps ≠ [])
    (hids : (ps.map fun p => p.descriptor.request.id).Nodup)
    (htransport : ∀ p ∈ ps, p.descriptor.transport = transport)
    (hnamed : ∀ p ∈ ps,
      Batch.entryId? (answer p.descriptor.request) = some p.descriptor.request.id)
    (hn : (ps.map Promise.number).Nodup) (hopen : ∀ p ∈ ps, isOpen p = true)
    (hQ : ∀ deeds ending, Settles R answer ps deeds ending →
      Q (.called transport (Batch.combinedCall ps headers) :: deeds) ending) :
    (Stages.sendTogether ps headers).Ensures (R.contract answer transport ps) isOpen Q := by
  obtain ⟨p, rest, rfl⟩ := List.exists_cons_of_ne_nil hne
  have hfirst : p.descriptor.transport = transport := htransport p List.mem_cons_self
  intro x hx
  obtain ⟨response, entries, rfl, hdecode, hperm⟩ := (hx hfirst).together rfl
  rw [hfirst]
  refine Stages.ensures_announceAll _ ?_ _
  intro y hy
  have hentries : y = .done (.arr entries) := hy.trans hdecode
  subst hentries
  exact Stages.ensures_reportAll (ensures_settleEach hids
    (fun q hq => Batch.lookup_of_perm hperm hids hnamed hq) hn hopen hQ) _

/-- **A task is given the same verdict on a combined call as alone**, whatever the order in which
the answers come and whatever they come to.  Only if the answer to an earlier request crashes the
handler, the later ones are not read. -/
theorem together_as_alone (headers : Dict String)
    (hpost : ∀ p ∈ ps, p.descriptor.http = .post)
    (hids : (ps.map fun p => p.descriptor.request.id).Nodup)
    (htransport : ∀ p ∈ ps, p.descriptor.transport = transport)
    (hnamed : ∀ p ∈ ps,
      (answer p.descriptor.request).get? "id" = some (.int p.descriptor.request.id))
    (hn : (ps.map Promise.number).Nodup) (hopen : ∀ p ∈ ps, isOpen p = true) :
    (∀ p ∈ ps, (Stages.sendAlone p (.finish .ok)).Ensures (R.contract answer transport ps) isOpen
      fun deeds ending =>
        received? p deeds ending = some (R.verdict p (answer p.descriptor.request))) ∧
    (Stages.sendTogether ps headers).Ensures (R.contract answer transport ps) isOpen
      fun deeds ending => ∀ front p back, ps = front ++ p :: back →
        (∀ q ∈ front, R.Reads q.descriptor (answer q.descriptor.request)) →
        received? p deeds ending = some (R.verdict p (answer p.descriptor.request)) := by
  have hnamed' := fun p hp => entryId?_of_named (hnamed p hp)
  refine ⟨fun p hp => ?_, ?_⟩
  · refine ensures_sendAlone hp (hpost p hp) (htransport p hp) (hopen p hp) fun deeds ending h => ?_
    rw [received?_called]
    have hfirst : [p] = [] ++ p :: [] := rfl
    exact h.received (List.nodup_singleton _) hfirst fun q hq => absurd hq List.not_mem_nil
  · by_cases hne : ps = []
    · subst hne
      exact fun front p back hps => by simp at hps
    refine ensures_sendTogether headers hne hids htransport hnamed' hn hopen
      fun deeds ending h front p back hps hfront => ?_
    rw [received?_called]
    exact h.received hn hps hfront

/-! ## Two requests on one call -/

/-- The reader of the standard codec, with a validator that refuses nothing. -/
def standard : Reader where
  decode body type := .ofExcept (Codec.standard.decode body type)
  validate value := .ofExcept (Validator.acceptAll.validate value)

/-- A call of `ping` that travels with another one. -/
def paired (id : Nat) : Promise :=
  { Stages.pinging id "wire" [] 2 with
    descriptor :=
      { ping with
        request := .bare id "ping"
        flat := (Request.bare id "ping").text
        maxBatchSize := 2 } }

/-- Two calls of `ping`. -/
def pair : List Promise := [paired 1, paired 2]

/-- A server that answers one call only. -/
def pong (r : Request) : Json :=
  .obj (if r.id = 1 then [("id", .int 1), ("result", .str "pong")]
    else [("error", .str "busy"), ("id", .int r.id)])

/-- What the server writes: of two requests it answers the second first. -/
def pongBody (body : Option String) : String :=
  if body = some (paired 1).descriptor.flat then (pong (.bare 1 "ping")).render
  else if body = some (paired 2).descriptor.flat then (pong (.bare 2 "ping")).render
  else (Json.arr [pong (.bare 2 "ping"), pong (.bare 1 "ping")]).render

theorem serves_pong (call : WireCall) :
    standard.Serves pong pair call (.answered ⟨pongBody call.body, []⟩) where
  alone := by
    intro p hp hbody
    refine ⟨_, rfl, ?_⟩
    rw [hbody]
    simp only [pair, List.mem_cons, List.not_mem_nil, or_false] at hp
    rcases hp with rfl | rfl
    · decide +kernel
    · decide +kernel
  together := by
    intro hbody
    refine ⟨_, [pong (.bare 2 "ping"), pong (.bare 1 "ping")], rfl, ?_, ?_⟩
    · rw [hbody]
      decide +kernel
    · decide +kernel

theorem responsive_pong : (standard.contract pong "wire" pair).Responsive where
  fetches _ call := ⟨_, fun _ => serves_pong call⟩
  reads _ := ⟨.done none, trivial⟩
  stores := ⟨.done (), trivial⟩
  decodes _ _ := ⟨_, rfl⟩
  validates _ := ⟨_, rfl⟩

theorem appraise_pong_first :
    standard.appraise (paired 1).descriptor (pong (.bare 1 "ping")) =
      .ok (.succeed (.str "pong") (some "\"pong\"")) := by decide +kernel

theorem appraise_pong_second :
    standard.appraise (paired 2).descriptor (pong (.bare 2 "ping")) =
      .ok (.fail (.declared (.str "busy"))) := by decide +kernel

/-- The second call fails, whichever way it travels. -/
theorem together_as_alone_pair :
    (standard.contract pong "wire" pair).Responsive ∧
    ((Stages.sendAlone (paired 2) (.finish .ok)).Ensures (standard.contract pong "wire" pair)
      (fun _ => true) fun deeds ending =>
        received? (paired 2) deeds ending =
          some ((paired 2).verdict (.fail (.declared (.str "busy"))))) ∧
    (Stages.sendTogether pair []).Ensures (standard.contract pong "wire" pair) (fun _ => true)
      fun deeds ending =>
        received? (paired 2) deeds ending =
          some ((paired 2).verdict (.fail (.declared (.str "busy")))) := by
  have hverdict : standard.verdict (paired 2) (pong (.bare 2 "ping")) =
      (paired 2).verdict (.fail (.declared (.str "busy"))) := by
    rw [verdict, appraise_pong_second]
  have hnamed : ∀ p ∈ pair,
      (pong p.descriptor.request).get? "id" = some (.int p.descriptor.request.id) := by
    decide +kernel
  have hwire : ∀ p ∈ pair, p.descriptor.transport = "wire" := by decide
  have hopen : ∀ p ∈ pair, (fun _ : Promise => true) p = true := fun _ _ => rfl
  obtain ⟨halone, htogether⟩ := together_as_alone (R := standard) [] (by decide) (by decide) hwire
    hnamed (by decide) hopen
  refine ⟨responsive_pong, ?_, htogether.mono fun deeds ending h => ?_⟩
  · rw [← hverdict]
    exact halone (paired 2) (by simp [pair])
  · rw [← hverdict]
    refine h [paired 1] (paired 2) [] rfl fun q hq => ?_
    rw [List.mem_singleton.1 hq]
    exact ⟨_, appraise_pong_first⟩

end Reader
end RpcFlow
