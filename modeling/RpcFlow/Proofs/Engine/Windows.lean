import RpcFlow.Proofs.Engine.BuiltIn
import RpcFlow.Proofs.Engine.Traces

/-!
# What becomes of a window

The network stage sorts out what a window holds, sends what belongs together on one call, and puts the
rest off.  Whatever the answer, it uses each promise once, the promises that it sends back and those
that travel are the promises of the window, and there is one call.

* `Stages.ensures_sendWindow` — what the stage does with a window.
* `Stages.ensures_oneCall` — one call carries the tasks that are not put off, and there are some.
* `Stages.handles_window` — unless something crashes, every promise is used once, while it is open.
* `Stages.shares_safely` — tasks on one call agree with each other.
* `Engine.Started.oneCall`, `Engine.Started.handled` — so it is with each window of a run.
-/

set_option autoImplicit false

namespace RpcFlow

/-- A move that records a result or a failure. -/
def Move.Settles (m : Move) : Prop := (∃ payload raw, m = .succeed payload raw) ∨ ∃ error, m = .fail error

/-- An answer that a contract allows makes a routine crash. -/
def Contract.Crashes (C : Contract) (message : String) : Prop :=
  (∃ transport call, C.fetches transport call (.crashed message)) ∨
    (∃ body type, C.decodes body type (.crashed message)) ∨
    ∃ value, C.validates value (.crashed message)

/-- The contract of a world that does not crash. -/
def Contract.steady (ps : List Promise) : Contract :=
  { Contract.own ps with
    fetches := fun _ _ x => ∀ message, x ≠ .crashed message
    decodes := fun _ _ x => ∀ message, x ≠ .crashed message
    validates := fun _ x => ∀ message, x ≠ .crashed message }

theorem Contract.not_crashes_steady (ps : List Promise) (message : String) :
    ¬ (Contract.steady ps).Crashes message := by
  rintro (⟨transport, call, h⟩ | ⟨body, type, h⟩ | ⟨value, h⟩)
  · exact h message rfl
  · exact h message rfl
  · exact h message rfl

/-- There is an answer other than a crash to everything. -/
theorem Contract.responsive_steady (ps : List Promise) : (Contract.steady ps).Responsive where
  fetches _ _ := ⟨.failed (.io "reset"), fun _ h => by cases h⟩
  reads _ := ⟨.done none, trivial⟩
  stores := ⟨.done (), trivial⟩
  decodes _ _ := ⟨.done .null, fun _ h => by cases h⟩
  validates _ := ⟨.done (), fun _ h => by cases h⟩

namespace Stages

/-- Promises are used in order, each by a move that has a property. -/
def Uses (P : Move → Prop) : List Promise → List Deed → Prop :=
  List.Forall₂ fun p d => ∃ m done, d = .used p m done ∧ P m

/-- Promises are used in order, each with a result or a failure. -/
abbrev Settled : List Promise → List Deed → Prop := Uses Move.Settles

/-- Promises are used in order, each to send its task back to the network stage. -/
abbrev Returned : List Promise → List Deed → Prop := Uses (· = .goTo [.getFromNet])

/-- How a call is concluded: its promises are settled, unless something crashes on the way. -/
inductive Concludes (C : Contract) (ps : List Promise) : List Deed → Ending → Prop
  | settled (deeds : List Deed) : Settled ps deeds → Concludes C ps deeds .ok
  | crashed (message : String) (qs : List Promise) (deeds : List Deed) : C.Crashes message →
    qs <+: ps → Settled qs deeds → Concludes C ps deeds (.crashed message)

variable {C : Contract} {isOpen : Promise → Bool} {Q : List Deed → Ending → Prop} {p : Promise}
  {ps : List Promise} {k : Routine}

/-! ## Parts of the network stage -/

theorem Concludes.cons {m : Move} {done : Bool} {deeds : List Deed} {ending : Ending}
    (hm : m.Settles) (h : Concludes C ps deeds ending) :
    Concludes C (p :: ps) (.used p m done :: deeds) ending := by
  have hp : ∃ m' done', Deed.used p m done = .used p m' done' ∧ m'.Settles := ⟨m, done, rfl, hm⟩
  cases h with
  | settled deeds hs => exact .settled _ (.cons hp hs)
  | crashed message qs deeds hc hpre hs =>
    exact .crashed message (p :: qs) _ hc (List.cons_prefix_cons.2 ⟨rfl, hpre⟩) (.cons hp hs)

theorem Concludes.crash {message : String} (h : C.Crashes message) :
    Concludes C ps [] (.crashed message) :=
  .crashed message [] [] h (List.nil_prefix) .nil

theorem ensures_announceAll (headers : Dict String) (hk : k.Ensures C isOpen Q) (ps : List Promise) :
    (announceAll headers k ps).Ensures C isOpen Q := by
  induction ps with
  | nil => exact hk
  | cons p ps ih => exact ih

theorem ensures_reportAll (hk : k.Ensures C isOpen Q) (ms : List Message) :
    (reportAll k ms).Ensures C isOpen Q := by
  induction ms with
  | nil => exact hk
  | cons m ms ih => exact ih

theorem ensures_failAll (error : CallError)
    (hQ : ∀ deeds ending, Concludes C ps deeds ending → Q deeds ending) :
    (failAll error ps).Ensures C isOpen Q := by
  induction ps generalizing isOpen Q with
  | nil => exact hQ [] .ok (.settled [] .nil)
  | cons p ps ih => exact ih fun deeds ending h => hQ _ ending (h.cons (.inr ⟨error, rfl⟩))

/-- A promise is used with what its answer comes to, unless something crashes. -/
theorem ensures_settleWith (answer : Json)
    (crash : ∀ message, C.Crashes message → Q [] (.crashed message))
    (hk : ∀ m, m.Settles → k.Ensures C (closing isOpen p) fun deeds ending =>
      Q (.used p m (isOpen p) :: deeds) ending) : (settleWith p answer k).Ensures C isOpen Q := by
  simp only [settleWith]
  split
  · exact hk _ (.inr ⟨_, rfl⟩)
  · exact hk _ (.inr ⟨_, rfl⟩)
  · intro x hx
    cases x with
    | crashed message => exact crash message (.inr (.inl ⟨_, _, hx⟩))
    | failed error => exact hk _ (.inr ⟨_, rfl⟩)
    | done payload =>
      intro y hy
      cases y with
      | crashed message => exact crash message (.inr (.inr ⟨_, hy⟩))
      | failed error => exact hk _ (.inr ⟨_, rfl⟩)
      | done u => exact hk _ (.inl ⟨_, _, rfl⟩)

theorem ensures_settleEach (entries : Batch.Entries)
    (hQ : ∀ deeds ending, Concludes C ps deeds ending → Q deeds ending) :
    (settleEach entries ps).Ensures C isOpen Q := by
  induction ps generalizing entries isOpen Q with
  | nil =>
    have hend : (Routine.finish .ok).Ensures C isOpen Q := hQ [] .ok (.settled [] .nil)
    exact ensures_reportAll hend _
  | cons p ps ih =>
    have hrest : ∀ left m, m.Settles → (settleEach left ps).Ensures C (closing isOpen p)
        fun deeds ending => Q (.used p m (isOpen p) :: deeds) ending := fun left m hm =>
      ih left fun deeds ending h => hQ _ ending (h.cons hm)
    unfold settleEach
    split
    · exact ensures_settleWith _ (fun message hc => hQ [] _ (.crash hc)) (hrest _)
    · exact hrest _ _ (.inr ⟨_, rfl⟩)

/-- A task that travels alone. -/
theorem ensures_sendAlone
    (hQ : ∀ deeds ending, Concludes C [p] deeds ending →
      Q (.called p.descriptor.transport (Batch.singleCall p) :: deeds) ending) :
    (sendAlone p (.finish .ok)).Ensures C isOpen Q := by
  have hone : ∀ m, m.Settles → (Routine.finish .ok).Ensures C (closing isOpen p)
      fun deeds ending => Q (.called p.descriptor.transport (Batch.singleCall p) ::
        .used p m (isOpen p) :: deeds) ending := fun m hm =>
    hQ _ .ok ((Concludes.settled [] .nil).cons hm)
  intro x hx
  cases x with
  | crashed message => exact hQ [] _ (.crash (.inl ⟨_, _, hx⟩))
  | failed error => exact hone _ (.inr ⟨_, rfl⟩)
  | answered response =>
    intro y hy
    cases y with
    | crashed message => exact hQ [] _ (.crash (.inr (.inl ⟨_, _, hy⟩)))
    | failed error => exact hone _ (.inr ⟨_, rfl⟩)
    | done answer => exact ensures_settleWith answer (fun message hc => hQ [] _ (.crash hc)) hone

/-- Tasks that travel together. -/
theorem ensures_sendTogether (headers : Dict String)
    (hQ : ∀ deeds ending, Concludes C (p :: ps) deeds ending →
      Q (.called p.descriptor.transport (Batch.combinedCall (p :: ps) headers) :: deeds) ending) :
    (sendTogether (p :: ps) headers).Ensures C isOpen Q := by
  intro x hx
  cases x with
  | crashed message => exact hQ [] _ (.crash (.inl ⟨_, _, hx⟩))
  | failed error => exact ensures_failAll _ hQ
  | answered response =>
    refine ensures_announceAll _ ?_ _
    intro y hy
    cases y with
    | crashed message => exact hQ [] _ (.crash (.inr (.inl ⟨_, _, hy⟩)))
    | failed error => exact ensures_failAll _ hQ
    | done answer =>
      simp only [settleAll]
      split
      · exact ensures_reportAll (ensures_settleEach _ hQ) _
      · exact ensures_failAll _ hQ

theorem ensures_sendBack (hk : ∀ isOpen' back, Returned ps back →
      k.Ensures C isOpen' fun deeds ending => Q (back ++ deeds) ending) :
    (sendBack k ps).Ensures C isOpen Q := by
  induction ps generalizing isOpen Q with
  | nil => exact hk isOpen [] .nil
  | cons p ps ih =>
    exact ih fun isOpen' back h => hk isOpen' (_ :: back) (.cons ⟨_, _, rfl, rfl⟩ h)

theorem ensures_putOff (reason : DeferReason) (hk : ∀ isOpen' back, Returned ps back →
      k.Ensures C isOpen' fun deeds ending => Q (back ++ deeds) ending) :
    (putOff reason ps k).Ensures C isOpen Q := by
  unfold putOff
  split
  · rename_i hnil
    rw [List.isEmpty_iff.1 hnil] at hk
    exact hk isOpen [] .nil
  · exact ensures_sendBack hk

end Stages

/-! ## Calls -/

namespace Batch

/-- A call that carries the request of one task: the task's body, unless the task only asks, and the task's
own headers and query. -/
structure Alone (p : Promise) (call : WireCall) : Prop where
  posts : p.descriptor.http = .post → call.body = some p.descriptor.flat
  asks : p.descriptor.http = .get → call.body = none
  headers : call.headers = p.descriptor.headers
  query : call.query = p.descriptor.query

/-- A call that carries the requests of several tasks: the list of their bodies, with headers for all of
them and the names of their methods. -/
structure Together (ps : List Promise) (merged : Dict String) (call : WireCall) : Prop where
  body : call.body = some ("[" ++ ",".intercalate (ps.map fun p => p.descriptor.flat) ++ "]")
  headers : call.headers = merged
  query : call.query =
    [("applicationMethod", ",".intercalate (ps.map fun p => p.descriptor.method))]

theorem alone_singleCall (p : Promise) : Alone p (singleCall p) where
  posts h := by rw [singleCall, h]
  asks h := by rw [singleCall, h]
  headers := rfl
  query := rfl

theorem together_combinedCall (ps : List Promise) (headers : Dict String) :
    Together ps headers (combinedCall ps headers) := ⟨rfl, rfl, rfl⟩

/-- A call that carries the requests of some tasks, each once and in their order: that of one task alone,
or that of several tasks together, which have one transport. -/
inductive Carries (headers : Dict String) : List Promise → String → WireCall → Prop
  | alone (p : Promise) (call : WireCall) : Alone p call →
    Carries headers [p] p.descriptor.transport call
  | together (ps : List Promise) (transport : String) (call : WireCall) : 2 ≤ ps.length →
    (∀ p ∈ ps, p.descriptor.transport = transport) → Together ps headers call →
    Carries headers ps transport call

end Batch

namespace Stages

variable {C : Contract} {isOpen : Promise → Bool} {Q : List Deed → Ending → Prop} {ps : List Promise}

/-- How a sorted window is dispatched: what is put off goes back, and what is left is sent on one call.
Only a window of which nothing is left sends no call. -/
inductive Dispatches (C : Contract) (s : Batch.Sorting ps) : List Deed → Ending → Prop
  | sent (back : List Deed) (transport : String) (call : WireCall) (deeds : List Deed)
    (ending : Ending) : Returned s.deferred back → Batch.Carries s.merged s.sent transport call →
    Concludes C s.sent deeds ending →
    Dispatches C s (back ++ .called transport call :: deeds) ending
  | nothing (back : List Deed) (message : String) : Returned s.deferred back → s.sent = [] →
    Dispatches C s back (.crashed message)

/-- The deeds of the network stage with a window that is sorted out. -/
theorem ensures_dispatch (s : Batch.Sorting ps)
    (hQ : ∀ deeds ending, Dispatches C s deeds ending → Q deeds ending) :
    (dispatch s).Ensures C isOpen Q := by
  refine ensures_putOff _ fun o₁ back₁ h₁ => ensures_putOff _ fun o₂ back₂ h₂ =>
    ensures_putOff _ fun o₃ back₃ h₃ => ?_
  have hback : Returned s.deferred (back₁ ++ back₂ ++ back₃) :=
    List.rel_append (List.rel_append h₁ h₂) h₃
  have hQ' : ∀ transport call deeds ending, Batch.Carries s.merged s.sent transport call →
      Concludes C s.sent deeds ending →
      Q (back₁ ++ (back₂ ++ (back₃ ++ .called transport call :: deeds))) ending := by
    intro transport call deeds ending hcall hc
    have h := hQ _ ending (.sent _ transport call deeds ending hback hcall hc)
    rwa [List.append_assoc, List.append_assoc] at h
  cases hsent : s.sent with
  | nil =>
    have h := hQ _ (.crashed _) (.nothing _ "index out of bounds: the len is 0 but the index is 0"
      hback hsent)
    simp only [unlessAlone, sendTogether, Routine.Ensures, List.append_nil]
    rwa [List.append_assoc] at h
  | cons p rest =>
    rw [hsent] at hQ'
    cases rest with
    | nil =>
      exact ensures_sendAlone fun deeds ending hc =>
        hQ' _ _ deeds ending (.alone p _ (Batch.alone_singleCall p)) hc
    | cons q rest =>
      refine ensures_sendTogether s.merged fun deeds ending hc => hQ' _ _ deeds ending ?_ hc
      refine .together _ _ _ (by simp) (fun r hr => ?_) (Batch.together_combinedCall _ _)
      have hmem : ∀ x ∈ p :: q :: rest, x ∈ s.headers.kept := fun x hx => by
        rw [← hsent] at hx
        exact hx
      exact s.transport r (hmem r hr) p (hmem p List.mem_cons_self)

/-- **The deeds of the network stage with a window.** -/
theorem ensures_sendWindow
    (hQ : ∀ (s : Batch.Sorting ps) deeds ending, Dispatches C s deeds ending → Q deeds ending) :
    (sendWindow ps).Ensures C isOpen Q := by
  obtain ⟨s, hs⟩ := exists_sorting ps
  rw [hs]
  exact ensures_dispatch s (hQ s)

/-! ## One window -/

/-- The promises whose tasks are sent back. -/
def deferredOf (deeds : List Deed) : List Promise := deeds.filterMap Deed.deferred?

/-- The promises of a window whose tasks are not sent back, in order of arrival. -/
def sentOf (window : List Promise) (deeds : List Deed) : List Promise :=
  window.filter fun p => (deferredOf deeds).all fun q => q.number != p.number

theorem Uses.promises {P : Move → Prop} {deeds : List Deed} (h : Uses P ps deeds) :
    deeds.filterMap Deed.promise? = ps ∧ deeds.filterMap Deed.call? = [] := by
  induction h with
  | nil => exact ⟨rfl, rfl⟩
  | cons hd _ ih =>
    obtain ⟨m, done, rfl, -⟩ := hd
    exact ⟨congrArg _ ih.1, ih.2⟩

theorem Uses.of_mem {P : Move → Prop} {deeds : List Deed} (h : Uses P ps deeds) {p : Promise}
    {m : Move} {done : Bool} (hmem : .used p m done ∈ deeds) : P m := by
  induction h with
  | nil => exact absurd hmem List.not_mem_nil
  | cons hd _ ih =>
    obtain ⟨m', done', rfl, hm⟩ := hd
    rcases List.mem_cons.1 hmem with heq | hmem
    · cases heq
      exact hm
    · exact ih hmem

/-- Who goes back while the promise is open has been put off. -/
theorem Returned.deferred {back : List Deed} (h : Returned ps back)
    (hdone : ∀ p m done, .used p m done ∈ back → done = true) : deferredOf back = ps := by
  induction h with
  | nil => rfl
  | @cons p d ps back hd _ ih =>
    obtain ⟨m, done, rfl, rfl⟩ := hd
    have htrue : done = true := hdone p _ done List.mem_cons_self
    subst htrue
    have hrest := ih fun p m done hmem => hdone p m done (List.mem_cons_of_mem _ hmem)
    exact congrArg (p :: ·) hrest

/-- A result or a failure is no mere choice of way. -/
theorem Settles.isRoute {m : Move} (h : m.Settles) (p : Promise) : (p.verdict m).isRoute = false := by
  rcases h with ⟨payload, raw, rfl⟩ | ⟨error, rfl⟩ <;> rfl

theorem Settled.deferred {deeds : List Deed} (h : Settled ps deeds) : deferredOf deeds = [] := by
  induction h with
  | nil => rfl
  | cons hd _ ih =>
    obtain ⟨m, done, rfl, hm⟩ := hd
    rw [deferredOf, List.filterMap_cons_none, ← deferredOf, ih]
    rw [Deed.deferred?, Settles.isRoute hm, Bool.and_false]
    rfl

/-- A call that is concluded uses its promises in order, the first of them if something crashes. -/
theorem Concludes.settles {deeds : List Deed} {ending : Ending} (h : Concludes C ps deeds ending) :
    ∃ qs, qs <+: ps ∧ Settled qs deeds := by
  cases h with
  | settled deeds hs => exact ⟨ps, List.prefix_rfl, hs⟩
  | crashed message qs deeds _ hpre hs => exact ⟨qs, hpre, hs⟩

/-- What is left of different promises, if some are taken away, are the others, in their order. -/
theorem filter_deferred {deferred sent : List Promise} (hperm : (deferred ++ sent).Perm ps)
    (hsub : sent.Sublist ps) (hn : (ps.map Promise.number).Nodup) :
    (ps.filter fun p => deferred.all fun q => q.number != p.number) = sent := by
  have hdiffer : ∀ p ∈ sent, ∀ q ∈ deferred, q.number ≠ p.number := by
    have hn' := (hperm.map Promise.number).nodup_iff.2 hn
    rw [List.map_append] at hn'
    exact fun p hp q hq => (List.nodup_append.1 hn').2.2 _ (List.mem_map_of_mem hq) _
      (List.mem_map_of_mem hp)
  have hsent : (sent.filter fun p => deferred.all fun q => q.number != p.number) = sent :=
    List.filter_eq_self.2 fun p hp => List.all_eq_true.2 fun q hq =>
      bne_iff_ne.2 (hdiffer p hp q hq)
  have hdeferred : (deferred.filter fun p => deferred.all fun q => q.number != p.number) = [] :=
    List.filter_eq_nil_iff.2 fun p hp hall => by simpa using List.all_eq_true.1 hall p hp
  have hlength := (hperm.filter fun p => deferred.all fun q => q.number != p.number).length_eq
  rw [List.filter_append, hdeferred, hsent, List.nil_append] at hlength
  have hle := hsub.filter fun p => deferred.all fun q => q.number != p.number
  rw [hsent] at hle
  exact (hle.eq_of_length hlength).symm

/-- **One call carries the tasks of a window that are not put off**, and there are some. -/
structure OneCall (window : List Promise) (deeds : List Deed) : Prop where
  call : ∃ headers transport call, deeds.filterMap Deed.call? = [(transport, call)] ∧
    Batch.Carries headers (sentOf window deeds) transport call
  parts : (deferredOf deeds ++ sentOf window deeds).Perm window
  nonempty : sentOf window deeds ≠ []

namespace Dispatches

variable {s : Batch.Sorting ps} {deeds : List Deed} {ending : Ending}

/-- The promises that are used are those that are sent back and, in order, those that are sent. -/
theorem promises (h : Dispatches C s deeds ending) :
    ∃ qs, qs <+: s.sent ∧ deeds.filterMap Deed.promise? = s.deferred ++ qs := by
  cases h with
  | sent back transport call rest ending hback _ hc =>
    obtain ⟨qs, hpre, hqs⟩ := hc.settles
    refine ⟨qs, hpre, ?_⟩
    rw [List.filterMap_append, hback.promises.1, List.filterMap_cons_none rfl, hqs.promises.1]
  | nothing back message hback _ =>
    exact ⟨[], List.nil_prefix, by rw [hback.promises.1, List.append_nil]⟩

/-- The promises of a window are found open when they are used. -/
theorem done (h : Dispatches C s deeds ending) (ht : Truthful isOpen deeds)
    (hn : (ps.map Promise.number).Nodup) (hopen : ∀ p ∈ ps, isOpen p = true) :
    ∀ p m done, .used p m done ∈ deeds → done = true := by
  obtain ⟨qs, hpre, huses⟩ := h.promises
  have hpart : (deeds.filterMap Deed.promise?).Subperm ps := by
    rw [huses]
    exact (hpre.sublist.append_left s.deferred).subperm.trans s.perm.subperm
  exact fun p m done hmem => ht.done (nodup_map_of_subperm hpart hn)
    (fun q hq => hopen q (hpart.subset hq)) hmem

theorem deferred (h : Dispatches C s deeds ending)
    (hdone : ∀ p m done, .used p m done ∈ deeds → done = true) : deferredOf deeds = s.deferred := by
  cases h with
  | sent back transport call rest ending hback _ hc =>
    obtain ⟨qs, -, hqs⟩ := hc.settles
    have hd : deferredOf back = s.deferred :=
      hback.deferred fun p m done hmem => hdone p m done (List.mem_append_left _ hmem)
    have hrest : deferredOf rest = [] := hqs.deferred
    rw [deferredOf] at hd hrest
    rw [deferredOf, List.filterMap_append, List.filterMap_cons_none rfl, hd, hrest, List.append_nil]
  | nothing back message hback _ => exact hback.deferred hdone

/-- The one call carries what is sent; only a window of which nothing is left sends none. -/
theorem calls (h : Dispatches C s deeds ending) :
    (∃ transport call, deeds.filterMap Deed.call? = [(transport, call)] ∧
      Batch.Carries s.merged s.sent transport call) ∨
    deeds.filterMap Deed.call? = [] ∧ s.sent = [] := by
  cases h with
  | sent back transport call rest ending hback hcall hc =>
    obtain ⟨qs, -, hqs⟩ := hc.settles
    refine .inl ⟨transport, call, ?_, hcall⟩
    rw [List.filterMap_append, hback.promises.2, List.nil_append]
    exact congrArg ((transport, call) :: ·) hqs.promises.2
  | nothing back message hback hnil => exact .inr ⟨hback.promises.2, hnil⟩

/-- If the promises of a window differ, those that are not put off are those that are sent. -/
theorem sentOf_eq (h : Dispatches C s deeds ending) (hn : (ps.map Promise.number).Nodup)
    (hdone : ∀ p m done, .used p m done ∈ deeds → done = true) : sentOf ps deeds = s.sent := by
  rw [sentOf, h.deferred hdone]
  exact filter_deferred s.perm s.sent_sublist hn

theorem oneCall (h : Dispatches C s deeds ending) (hs : s.sent ≠ [])
    (hn : (ps.map Promise.number).Nodup)
    (hdone : ∀ p m done, .used p m done ∈ deeds → done = true) : OneCall ps deeds := by
  have hsent := h.sentOf_eq hn hdone
  have hparts : (deferredOf deeds ++ sentOf ps deeds).Perm ps := by
    rw [h.deferred hdone, hsent]
    exact s.perm
  rcases h.calls with ⟨transport, call, hcalls, hcall⟩ | ⟨-, hnil⟩
  · exact ⟨⟨s.merged, transport, call, hcalls, hsent ▸ hcall⟩, hparts, hsent ▸ hs⟩
  · exact absurd hnil hs

end Dispatches

variable {window : Duration}

/-- The network stage dispatches a window, being told the truth about its promises. -/
theorem ensures_dispatches : ((network window).onWindow ps).Ensures C isOpen fun deeds ending =>
    ∃ s : Batch.Sorting ps, Dispatches C s deeds ending ∧ Truthful isOpen deeds := by
  have hsend : (sendWindow ps).Ensures C isOpen fun deeds ending =>
      ∃ s : Batch.Sorting ps, Dispatches C s deeds ending :=
    ensures_sendWindow fun s deeds ending h => ⟨s, h⟩
  refine (hsend.and (Routine.ensures_truthful C _ isOpen)).mono ?_
  rintro deeds ending ⟨⟨s, h⟩, ht⟩
  exact ⟨s, h, ht⟩

/-- **Every window sends something**, on one call, whatever the answers are. -/
theorem ensures_oneCall (hne : ps ≠ []) (hsize : ∀ p ∈ ps, 1 ≤ p.descriptor.maxBatchSize)
    (hn : (ps.map Promise.number).Nodup) (hopen : ∀ p ∈ ps, isOpen p = true) :
    ((network window).onWindow ps).Ensures C isOpen fun deeds _ => OneCall ps deeds := by
  refine ensures_dispatches.mono ?_
  rintro deeds ending ⟨s, h, ht⟩
  exact h.oneCall (s.nonempty hne hsize) hn (h.done ht hn hopen)

/-! ## Nothing is lost, nothing is sent twice -/

/-- A window that is handled as it should be: each promise is used once, while it is open, to send its
task back or to record a result or a failure, and one call carries the tasks that are not sent back. -/
structure Handled (window : List Promise) (deeds : List Deed) : Prop extends
    OneCall window deeds where
  uses : (deeds.filterMap Deed.promise?).Perm window
  verdicts : ∀ p m done, .used p m done ∈ deeds → done = true ∧
    (p.verdict m = .route [.getFromNet] ∨ (p.verdict m).isSuccess ∨ (p.verdict m).isFailure)

theorem Dispatches.verdict {s : Batch.Sorting ps} {deeds : List Deed} {ending : Ending}
    (h : Dispatches C s deeds ending) {p : Promise} {m : Move} {done : Bool}
    (hmem : .used p m done ∈ deeds) :
    p.verdict m = .route [.getFromNet] ∨ (p.verdict m).isSuccess ∨ (p.verdict m).isFailure := by
  cases h with
  | sent back transport call rest ending hback _ hc =>
    obtain ⟨qs, -, hqs⟩ := hc.settles
    rcases List.mem_append.1 hmem with hmem | hmem
    · rw [hback.of_mem hmem]
      exact .inl rfl
    · have hrest : .used p m done ∈ rest := by simpa using hmem
      rcases hqs.of_mem hrest with ⟨payload, raw, rfl⟩ | ⟨error, rfl⟩
      · exact .inr (.inl rfl)
      · exact .inr (.inr rfl)
  | nothing back message hback _ =>
    rw [hback.of_mem hmem]
    exact .inl rfl

/-- If nothing crashes, every promise of a window is used. -/
theorem Dispatches.uses {s : Batch.Sorting ps} {deeds : List Deed} {ending : Ending}
    (h : Dispatches C s deeds ending) (hC : ∀ message, ¬ C.Crashes message) (hs : s.sent ≠ []) :
    ending = .ok ∧ (deeds.filterMap Deed.promise?).Perm ps := by
  cases h with
  | sent back transport call rest ending hback _ hc =>
    cases hc with
    | settled rest hrest =>
      refine ⟨rfl, ?_⟩
      rw [List.filterMap_append, hback.promises.1, List.filterMap_cons_none rfl, hrest.promises.1]
      exact s.perm
    | crashed message qs rest hcrash _ _ => exact absurd hcrash (hC message)
  | nothing back message _ hnil => exact absurd hnil hs

theorem Dispatches.handled {s : Batch.Sorting ps} {deeds : List Deed} {ending : Ending}
    (h : Dispatches C s deeds ending) (ht : Truthful isOpen deeds)
    (hC : ∀ message, ¬ C.Crashes message) (hs : s.sent ≠ []) (hn : (ps.map Promise.number).Nodup)
    (hopen : ∀ p ∈ ps, isOpen p = true) : ending = .ok ∧ Handled ps deeds := by
  have hdone := h.done ht hn hopen
  obtain ⟨hending, huses⟩ := h.uses hC hs
  exact ⟨hending, h.oneCall hs hn hdone, huses, fun p m done hmem =>
    ⟨hdone p m done hmem, h.verdict hmem⟩⟩

/-- **No task is lost, and none is sent twice.**  Whatever answers come back, as long as nothing
crashes. -/
theorem handles_window (hne : ps ≠ []) (hsize : ∀ p ∈ ps, 1 ≤ p.descriptor.maxBatchSize)
    (hn : (ps.map Promise.number).Nodup) (hopen : ∀ p ∈ ps, isOpen p = true) :
    ((network window).onWindow ps).Ensures (.steady ps) isOpen fun deeds ending =>
      ending = .ok ∧ Handled ps deeds := by
  refine ensures_dispatches.mono ?_
  rintro deeds ending ⟨s, h, ht⟩
  exact h.handled ht (Contract.not_crashes_steady ps) (s.nonempty hne hsize) hn hopen

/-- A call of `ping` in the network stage. -/
def pinging (number : Nat) (transport : String) (headers : Dict String) (size : Nat) : Promise where
  number
  task := number
  taskId := number
  stage := .getFromNet
  descriptor := { ping with transport, headers, maxBatchSize := size }

/-- Two calls that can travel together, one that disagrees with them, and one elsewhere. -/
def mixed : List Promise :=
  [pinging 4 "wire" [("lang", "en")] 3, pinging 5 "tube" [] 2, pinging 6 "wire" [("lang", "de")] 3,
    pinging 7 "wire" [("trace", "1")] 3]

theorem handles_window_mixed :
    (((network (.ofMillis 100)).onWindow mixed).Ensures (.steady mixed) (fun _ => true)
      fun deeds ending => ending = .ok ∧ Handled mixed deeds) ∧ ∃ deeds, Handled mixed deeds := by
  have h : ((network (.ofMillis 100)).onWindow mixed).Ensures (.steady mixed) (fun _ => true)
      fun deeds ending => ending = .ok ∧ Handled mixed deeds :=
    handles_window (by decide) (by decide) (by decide) fun _ _ => rfl
  obtain ⟨deeds, ending, -, hdeeds⟩ := h.possible (Contract.responsive_steady mixed)
  exact ⟨h, deeds, hdeeds⟩

end Stages

/-! ## Calls that several tasks share -/

namespace Batch

/-- Tasks of a window that may share a call with these headers. -/
structure Suited (window members : List Promise) (transport : String) (headers : Dict String) :
    Prop where
  order : members.Sublist window
  several : 2 ≤ members.length
  transport : ∀ p ∈ members, p.descriptor.transport = transport
  size : ∀ p ∈ members, members.length ≤ p.descriptor.maxBatchSize
  sociable : ∀ p ∈ members, p.descriptor.maxBatchSize ≠ 1
  agree : ∀ p ∈ members, ∀ q ∈ members, ∀ name value value',
    Dict.at? p.descriptor.headers name = some value →
    Dict.at? q.descriptor.headers name = some value' → value = value'
  union : ∀ name value, Dict.at? headers name = some value ↔
    ∃ p ∈ members, Dict.at? p.descriptor.headers name = some value

/-- A call that a window may lead to: that of one of its tasks, or that of tasks that may share it. -/
inductive Safe (window : List Promise) : List Promise → String → WireCall → Prop
  | alone (p : Promise) (call : WireCall) : p ∈ window → Alone p call →
    Safe window [p] p.descriptor.transport call
  | together (members : List Promise) (transport : String) (call : WireCall) :
    Suited window members transport call.headers → Together members call.headers call →
    Safe window members transport call

/-- What is left of a window can travel on one call. -/
theorem Sorting.safe {ps : List Promise} (s : Sorting ps)
    (h : ∀ p ∈ ps, Dict.Sorted p.descriptor.headers) {transport : String} {call : WireCall}
    (hcall : Carries s.merged s.sent transport call) : Safe ps s.sent transport call := by
  have hsub := s.sent_sublist
  have hsize : ∀ p ∈ s.sent, s.sent.length ≤ max p.descriptor.maxBatchSize 1 := s.size
  have hunion : ∀ name value, Dict.at? s.merged name = some value ↔
      ∃ p ∈ s.sent, Dict.at? p.descriptor.headers name = some value := s.agree h
  generalize s.sent = members at hcall hsub hsize hunion
  cases hcall with
  | alone p call halone => exact .alone p call (hsub.subset List.mem_cons_self) halone
  | together ps transport call htwo htransport htogether =>
    have hfits : ∀ p ∈ members, members.length ≤ p.descriptor.maxBatchSize := fun p hp => by
      have := hsize p hp
      omega
    rw [← htogether.headers] at hunion htogether
    refine .together members transport call ⟨hsub, htwo, htransport, hfits, ?_, ?_, hunion⟩ htogether
    · intro p hp hone
      have := hfits p hp
      omega
    · intro p hp q hq name value value' hv hv'
      have hp' := (hunion name value).2 ⟨p, hp, hv⟩
      have hq' := (hunion name value').2 ⟨q, hq, hv'⟩
      exact Option.some.inj (hp'.symm.trans hq')

end Batch

namespace Stages

variable {C : Contract} {isOpen : Promise → Bool} {ps : List Promise} {window : Duration}

/-- **Tasks that share a call suit each other**: they have one transport, no more of them travel
together than each allows, and the headers are those of all of them, which agree.  Headers are
dictionaries, in which a name stands once.  The tasks on the call are those of the window that are not
put off; for this its promises have to be different ones, and open. -/
theorem shares_safely (h : ∀ p ∈ ps, Dict.Sorted p.descriptor.headers) :
    ((network window).onWindow ps).Ensures C isOpen fun deeds _ =>
      ∀ transport call, .called transport call ∈ deeds → ∃ members,
        Batch.Safe ps members transport call ∧
        ((ps.map Promise.number).Nodup → (∀ p ∈ ps, isOpen p = true) → members = sentOf ps deeds) := by
  refine ensures_dispatches.mono ?_
  rintro deeds ending ⟨s, hd, ht⟩ transport call hmem
  have hcalls : (transport, call) ∈ deeds.filterMap Deed.call? :=
    List.mem_filterMap.2 ⟨_, hmem, rfl⟩
  rcases hd.calls with ⟨transport', call', hone, hcarries⟩ | ⟨hnone, -⟩
  · rw [hone, List.mem_singleton] at hcalls
    cases hcalls
    exact ⟨s.sent, s.safe h hcarries, fun hn hopen => (hd.sentOf_eq hn (hd.done ht hn hopen)).symm⟩
  · rw [hnone] at hcalls
    exact absurd hcalls List.not_mem_nil

theorem shares_safely_mixed : ((network (.ofMillis 100)).onWindow mixed).Ensures (.own mixed)
    (fun _ => true) fun deeds _ => ∀ transport call, .called transport call ∈ deeds →
      Batch.Safe mixed (sentOf mixed deeds) transport call := by
  have hsorted : ∀ p ∈ mixed, Dict.Sorted p.descriptor.headers := by
    intro p hp
    simp only [mixed, List.mem_cons, List.not_mem_nil, or_false] at hp
    rcases hp with rfl | rfl | rfl | rfl
    · exact List.pairwise_singleton _ _
    · exact Dict.sorted_nil
    · exact List.pairwise_singleton _ _
    · exact List.pairwise_singleton _ _
  refine (shares_safely hsorted).mono fun deeds _ h transport call hmem => ?_
  obtain ⟨members, hsafe, hmembers⟩ := h transport call hmem
  have hsent : members = sentOf mixed deeds := hmembers (by decide) fun _ _ => rfl
  exact hsent ▸ hsafe

example : (Batch.Sorting.together mixed).sent.map Promise.number = [4, 7] := by decide

end Stages

/-! ## Windows in a run -/

namespace Engine

variable {σ : Type} {env : Environment σ} {drift : σ → σ → Prop} {blocks : Stage → Block}
  {e e₁ e' : Engine σ} {index : Nat} {h h' : Handler} {ds : List Deed} {ending : Ending}
  {window : Duration} {C : Contract} {Q : List Deed → Ending → Prop}

/-- A handler that the network stage starts has a window of open promises. -/
theorem Started.onWindow (hst : Started e e₁ h) (he : Reachable env drift blocks e)
    (hnet : blocks h.stage = Stages.network window) :
    h.promises ≠ [] ∧ (∀ p ∈ h.promises, e₁.isOpen p = true) ∧
      h.state = .running ((Stages.network window).onWindow h.promises) := by
  have hblock : e.blocks h.stage = Stages.network window := by rw [he.blocks_eq, hnet]
  rcases hst.routine with ⟨hnone, -⟩ | ⟨-, hrun, w, hw, htasks⟩
  · rw [hblock] at hnone
    cases hnone
  · rw [hblock] at hrun
    refine ⟨fun hnil => he.window_ne_nil _ w hw ?_, fun p hp => (hst.promises p hp).2.1, hrun⟩
    rw [← htasks, hnil]
    rfl

section

variable (hst : Started e e₁ h) (he : Reachable env drift blocks e) (hs : Step env drift e e₁)
  (hh : e₁.handlers[index]? = some h) (hb : ∀ s, (blocks s).Proper)
  (hnet : blocks h.stage = Stages.network window)
  (hsize : ∀ (i : Nat) (t : Task), e.tasks[i]? = some t → 1 ≤ t.descriptor.maxBatchSize)
  (hrun : Steps env drift e₁ e') (hc : e'.cancelled = false)
  (hh' : e'.handlers[index]? = some h') (hend : h'.state = .ended ending)

include hst he hs hh hb hnet hsize hrun hc hh' hend

/-- What the network stage ensures of windows, a handler has done once it has ended. -/
theorem Started.done (ha : ∀ e : Engine σ, e.Answers env C)
    (hQ : h.promises ≠ [] → (∀ p ∈ h.promises, 1 ≤ p.descriptor.maxBatchSize) →
      (h.promises.map Promise.number).Nodup → (∀ p ∈ h.promises, e₁.isOpen p = true) →
      ((Stages.network window).onWindow h.promises).Ensures C e₁.isOpen Q) :
    (∃ ds, Trace env drift index e₁ ds e') ∧ ∀ ds, Trace env drift index e₁ ds e' → Q ds ending := by
  have he₁ := he.step hs
  have hl₁ : Ledger e₁ := he₁.ledger hb (hrun.cancelled hc)
  obtain ⟨hne, hopen, hrunning⟩ := hst.onWindow he hnet
  have hsize' : ∀ p ∈ h.promises, 1 ≤ p.descriptor.maxBatchSize := by
    intro p hp
    obtain ⟨-, -, t, ht, -, hd⟩ := hst.promises p hp
    exact hd ▸ hsize p.task t ht
  have hens := hQ hne hsize' (hl₁.nodup_promises hh) hopen
  exact ⟨hrun.exists_trace index, fun ds ht => ht.ensured he₁ hb hc ha hh hrunning hens hh' hend⟩

/-- **In every run, a window is sent on one call**, but for the tasks that are put off. -/
theorem Started.oneCall : (∃ ds, Trace env drift index e₁ ds e') ∧
    ∀ ds, Trace env drift index e₁ ds e' → Stages.OneCall h.promises ds := by
  have hown : ∀ e : Engine σ, e.Answers env (.own h.promises) := fun _ => .own
  exact hst.done he hs hh hb hnet hsize hrun hc hh' hend hown
    (Q := fun ds _ => Stages.OneCall h.promises ds) Stages.ensures_oneCall

/-- **In every run in which nothing crashes, a window is handled as it should be.** -/
theorem Started.handled (ha : ∀ e : Engine σ, e.Answers env (.steady h.promises)) :
    (∃ ds, Trace env drift index e₁ ds e') ∧
      ∀ ds, Trace env drift index e₁ ds e' → ending = .ok ∧ Stages.Handled h.promises ds := by
  refine hst.done he hs hh hb hnet hsize hrun hc hh' hend ha
    (Q := fun ds ending => ending = .ok ∧ Stages.Handled h.promises ds) ?_
  intro hne hsize hn hopen
  refine Stages.ensures_dispatches.mono ?_
  rintro deeds ending ⟨s, hd, htold⟩
  exact hd.handled htold (Contract.not_crashes_steady _) (s.nonempty hne hsize) hn hopen

end

end Engine
end RpcFlow
