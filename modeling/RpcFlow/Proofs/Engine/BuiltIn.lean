import RpcFlow.Engine.Stages
import RpcFlow.Proofs.Engine.Batches
import RpcFlow.Proofs.Engine.Contracts
import RpcFlow.Proofs.Engine.Matching

/-!
# Contracts of the built-in stages

Every built-in stage has a few moves that it may ask for, and only the stages that ask the outside
world may end with an error.  The lemmas about the parts of the network stage are stated for any
contract, so that they serve for stronger ones too.

* `Stages.exists_sorting` — a window is sorted out, and what is left is sent.
* `Stages.obeys_sendWindow` — what a window obeys, given what a call for one task and a call for
  several tasks obey.
* `Stages.Arrived` — the answers to a request that come in on a call; `Stages.Judged` — the moves that
  an answer may lead to.
* `Stages.AllowsNetwork`, `Stages.obeys_network` — what the network stage does, for any contract that
  allows it.
* `Stages.contract`, `Stages.obeys_onTask`, `Stages.obeys_onWindow` — the contract of a stage.
* `Stages.proper_block` — the built-in blocks act only through their promises.
-/

set_option autoImplicit false

namespace RpcFlow
namespace Stages

variable {C : Contract} {p : Promise} {ps : List Promise} {k : Routine}

/-! ## Parts of the network stage -/

theorem obeys_settle {m : Move} (hp : p ∈ C.promises) (hm : C.uses p m) (hk : k.Obeys C) :
    (settle p m k).Obeys C :=
  ⟨⟨hp, hm⟩, fun _ => hk⟩

theorem obeys_failAll {error : CallError}
    (h : ∀ p ∈ ps, p ∈ C.promises ∧ C.uses p (.fail error)) : (failAll error ps).Obeys C := by
  induction ps with
  | nil => exact .inl rfl
  | cons p ps ih =>
    obtain ⟨hp, hm⟩ := h p List.mem_cons_self
    exact obeys_settle hp hm (ih fun q hq => h q (List.mem_cons_of_mem p hq))

theorem obeys_announceAll (headers : Dict String) (hk : k.Obeys C) (ps : List Promise) :
    (announceAll headers k ps).Obeys C := by
  induction ps with
  | nil => exact hk
  | cons p ps ih => exact ih

theorem obeys_reportAll (hk : k.Obeys C) (ms : List Message) : (reportAll k ms).Obeys C := by
  induction ms with
  | nil => exact hk
  | cons m ms ih => exact ih

theorem obeys_sendBack (h : ∀ p ∈ ps, p ∈ C.promises ∧ C.uses p (.goTo [.getFromNet]))
    (hk : k.Obeys C) : (sendBack k ps).Obeys C := by
  induction ps with
  | nil => exact hk
  | cons p ps ih =>
    obtain ⟨hp, hm⟩ := h p List.mem_cons_self
    exact obeys_settle hp hm (ih fun q hq => h q (List.mem_cons_of_mem p hq))

theorem obeys_putOff (reason : DeferReason)
    (h : ∀ p ∈ ps, p ∈ C.promises ∧ C.uses p (.goTo [.getFromNet])) (hk : k.Obeys C) :
    (putOff reason ps k).Obeys C := by
  unfold putOff
  split
  · exact hk
  · exact obeys_sendBack h hk

theorem obeys_unlessAlone (h : ∀ p ∈ ps, (sendAlone p (.finish .ok)).Obeys C) (hk : k.Obeys C) :
    (unlessAlone ps k).Obeys C := by
  unfold unlessAlone
  split
  · rename_i p
    exact h p List.mem_cons_self
  · exact hk

/-- Carries out a sorting: what is put off goes back, and the rest is sent. -/
def dispatch (s : Batch.Sorting ps) : Routine :=
  putOff .executor s.transports.deferred <|
    putOff .batchSize s.sizes.deferred <|
      putOff .headerConflict s.headers.deferred <|
        unlessAlone s.sent (sendTogether s.sent s.merged)

theorem unlessAlone_of_ne (h : ∀ p, ps ≠ [p]) : unlessAlone ps k = k := by
  unfold unlessAlone
  split
  · exact absurd rfl (h _)
  · rfl

theorem dispatch_alone (transports : Batch.Cut ps) (sizes : Batch.Cut transports.kept)
    (h : sizes.kept = [p]) :
    dispatch (.alone transports sizes h) =
      putOff .executor transports.deferred
        (putOff .batchSize sizes.deferred (sendAlone p (.finish .ok))) := by
  have hsent : (Batch.Sorting.alone transports sizes h).sent = [p] := h
  rw [dispatch, hsent]
  rfl

/-- **A window is sorted out and sent.** -/
theorem exists_sorting (ps : List Promise) : ∃ s : Batch.Sorting ps, sendWindow ps = dispatch s := by
  by_cases hps : ∃ p, ps = [p]
  · obtain ⟨p, rfl⟩ := hps
    exact ⟨.alone (.whole [p]) (.whole [p]) rfl, rfl⟩
  rw [sendWindow, unlessAlone_of_ne fun p h => hps ⟨p, h⟩]
  by_cases hgroup : ∃ p, (Batch.splitByTransport ps).1 = [p]
  · obtain ⟨p, hp⟩ := hgroup
    have hkept : (Batch.Cut.whole (Batch.Cut.byTransport ps).kept).kept = [p] := hp
    refine ⟨.alone (.byTransport ps) (.whole _) hkept, ?_⟩
    rw [dispatch_alone]
    simp only [hp]
    rfl
  by_cases hbatch : ∃ p, (Batch.fitSize (Batch.splitByTransport ps).1).1 = [p]
  · obtain ⟨p, hp⟩ := hbatch
    have hkept : (Batch.Cut.bySize (Batch.Cut.byTransport ps).kept).kept = [p] := hp
    refine ⟨.alone (.byTransport ps) (.bySize _) hkept, ?_⟩
    rw [dispatch_alone]
    simp only [unlessAlone_of_ne fun p h => hgroup ⟨p, h⟩, hp]
    rfl
  refine ⟨.together ps, ?_⟩
  simp only [unlessAlone_of_ne fun p h => hgroup ⟨p, h⟩,
    unlessAlone_of_ne fun p h => hbatch ⟨p, h⟩]
  rfl

/-- What a window obeys: its tasks are sent alone, sent back, or sent together. -/
theorem obeys_sendWindow (alone : ∀ p ∈ C.promises, (sendAlone p (.finish .ok)).Obeys C)
    (back : ∀ p ∈ C.promises, C.uses p (.goTo [.getFromNet]))
    (together : ∀ s : Batch.Sorting C.promises, (sendTogether s.sent s.merged).Obeys C) :
    (sendWindow C.promises).Obeys C := by
  obtain ⟨s, hs⟩ := exists_sorting C.promises
  have hback : ∀ {qs : List Promise} {k : Routine} (reason : DeferReason), qs ⊆ C.promises →
      k.Obeys C → (putOff reason qs k).Obeys C := fun reason hq hk =>
    obeys_putOff reason (fun p hp => ⟨hq hp, back p (hq hp)⟩) hk
  have hdeferred : s.deferred ⊆ C.promises := fun p hp =>
    s.perm.subset (List.mem_append_left _ hp)
  rw [Batch.Sorting.deferred, List.append_subset, List.append_subset] at hdeferred
  obtain ⟨⟨htransports, hsizes⟩, hheaders⟩ := hdeferred
  rw [hs]
  refine hback _ htransports (hback _ hsizes (hback _ hheaders ?_))
  exact obeys_unlessAlone (fun p hp => alone p (s.sent_sublist.subset hp)) (together s)

/-- The moves that the answer to a request may lead to. -/
inductive Judged (C : Contract) (d : Descriptor) (answer : Json) : Move → Prop
  | declared (text : String) : d.envelope.unwrap answer = .error (.declared text) →
    Judged C d answer (.fail (declaredError text))
  | malformed (reason : String) : d.envelope.unwrap answer = .error (.malformed reason) →
    Judged C d answer (.fail (.conversion reason))
  | undecoded (raw : Option String) (error : CallError) : d.envelope.unwrap answer = .ok raw →
    C.decodes raw d.resultType (.failed error) → Judged C d answer (.fail error)
  | invalid (raw : Option String) (payload : Json) (error : CallError) :
    d.envelope.unwrap answer = .ok raw → C.decodes raw d.resultType (.done payload) →
    C.validates payload (.failed error) → Judged C d answer (.fail error)
  | valid (raw : Option String) (payload : Json) : d.envelope.unwrap answer = .ok raw →
    C.decodes raw d.resultType (.done payload) → C.validates payload (.done ()) →
    Judged C d answer (.succeed payload raw)

theorem obeys_settleWith {answer : Json} (hp : p ∈ C.promises)
    (hu : ∀ m, Judged C p.descriptor answer m → C.uses p m)
    (hd : ∀ raw type message, C.decodes raw type (.crashed message) → C.ends (.crashed message))
    (hv : ∀ value message, C.validates value (.crashed message) → C.ends (.crashed message))
    (hk : k.Obeys C) : (settleWith p answer k).Obeys C := by
  simp only [settleWith]
  split
  · rename_i text h
    exact obeys_settle hp (hu _ (.declared text h)) hk
  · rename_i reason h
    exact obeys_settle hp (hu _ (.malformed reason h)) hk
  · rename_i raw h
    intro x hx
    cases x with
    | crashed message => exact .inr (hd _ _ message hx)
    | failed error => exact obeys_settle hp (hu _ (.undecoded raw error h hx)) hk
    | done payload =>
      intro y hy
      cases y with
      | crashed message => exact .inr (hv _ message hy)
      | failed error => exact obeys_settle hp (hu _ (.invalid raw payload error h hx hy)) hk
      | done u => exact obeys_settle hp (hu _ (.valid raw payload h hx hy)) hk

/-! ## Contracts of the network stage -/

/-- The answers to a request that come in: the answer to a call for it alone, and the entry with its
id in the answer to a call for several requests. -/
inductive Arrived (fetches : String → WireCall → WireOutcome → Prop)
    (decodes : Option String → ResultType → Outcome Json → Prop) (p : Promise) (answer : Json) : Prop
  | alone (response : Response) :
    fetches p.descriptor.transport (Batch.singleCall p) (.answered response) →
    decodes (some response.body) .any (.done answer) → Arrived fetches decodes p answer
  | together (first : Promise) (rest : List Promise) (headers : Dict String) (response : Response)
    (answers : List Json) : p ∈ first :: rest →
    fetches first.descriptor.transport (Batch.combinedCall (first :: rest) headers)
      (.answered response) →
    decodes (some response.body) .vecValue (.done (.arr answers)) → answer ∈ answers →
    Batch.entryId? answer = some p.descriptor.request.id → Arrived fetches decodes p answer

/-- A contract that allows the network stage what it does: it fails promises, sends them back, and
settles them with what an answer comes to. -/
structure AllowsNetwork (C : Contract) : Prop where
  fails : ∀ p error, C.uses p (.fail error)
  judged : ∀ (p : Promise) (answer : Json) (m : Move), Arrived C.fetches C.decodes p answer →
    Judged C p.descriptor answer m → C.uses p m
  back : ∀ p, C.uses p (.goTo [.getFromNet])
  ends : ∀ message, C.ends (.crashed message)

section

variable (hC : AllowsNetwork C)
include hC

theorem obeys_sendAlone (hp : p ∈ C.promises) (hk : k.Obeys C) : (sendAlone p k).Obeys C := by
  intro x hx
  cases x with
  | crashed message => exact .inr (hC.ends message)
  | failed error => exact obeys_settle hp (hC.fails p _) hk
  | answered response =>
    intro y hy
    cases y with
    | crashed message => exact .inr (hC.ends message)
    | failed error => exact obeys_settle hp (hC.fails p _) hk
    | done answer =>
      exact obeys_settleWith hp (fun m => hC.judged p answer m (.alone response hx hy))
        (fun _ _ message _ => hC.ends message) (fun _ message _ => hC.ends message) hk

theorem obeys_settleEach {entries : Batch.Entries} (h : ps ⊆ C.promises)
    (ha : ∀ x ∈ entries, ∀ p ∈ ps, p.descriptor.request.id = x.1 →
      Arrived C.fetches C.decodes p x.2) :
    (settleEach entries ps).Obeys C := by
  induction ps generalizing entries with
  | nil =>
    have hend : (Routine.finish .ok).Obeys C := .inl rfl
    exact obeys_reportAll hend _
  | cons p ps ih =>
    have hp : p ∈ C.promises := h List.mem_cons_self
    have hrest : ps ⊆ C.promises := fun q hq => h (List.mem_cons_of_mem p hq)
    -- the entries that are left are among the entries
    have hleft : ∀ x ∈ (Batch.takeEntry entries p.descriptor.request.id).2, ∀ q ∈ ps,
        q.descriptor.request.id = x.1 → Arrived C.fetches C.decodes q x.2 := fun x hx q hq =>
      ha x (List.mem_filter.1 hx).1 q (List.mem_cons_of_mem p hq)
    unfold settleEach
    split
    · rename_i answer left htake
      rw [htake] at hleft
      obtain ⟨before, after, hsplit, -⟩ :=
        List.lookup_eq_some_iff.1 (show entries.lookup p.descriptor.request.id = some answer from
          congrArg Prod.fst htake)
      have hmem : (p.descriptor.request.id, answer) ∈ entries := by
        rw [hsplit]
        exact List.mem_append_right _ List.mem_cons_self
      have harrived := ha _ hmem p List.mem_cons_self rfl
      exact obeys_settleWith hp (fun m => hC.judged p answer m harrived)
        (fun _ _ message _ => hC.ends message) (fun _ message _ => hC.ends message)
        (ih hrest hleft)
    · rename_i left htake
      rw [htake] at hleft
      exact obeys_settle hp (hC.fails p _) (ih hrest hleft)

theorem obeys_sendTogether (h : ps ⊆ C.promises) (headers : Dict String) :
    (sendTogether ps headers).Obeys C := by
  have hfail : ∀ error, (failAll error ps).Obeys C := fun error =>
    obeys_failAll fun p hp => ⟨h hp, hC.fails p _⟩
  obtain _ | ⟨p, ps⟩ := ps
  · exact .inr (hC.ends _)
  intro x hx
  cases x with
  | crashed message => exact .inr (hC.ends message)
  | failed error => exact hfail _
  | answered response =>
    refine obeys_announceAll _ ?_ _
    intro y hy
    cases y with
    | crashed message => exact .inr (hC.ends message)
    | failed error => exact hfail _
    | done answer =>
      simp only [settleAll]
      split
      · rename_i answers
        refine obeys_reportAll (obeys_settleEach hC h fun x hentry q hq hid => ?_) _
        obtain ⟨hmem, hbears⟩ := Batch.mem_entriesById hentry
        exact .together p ps headers response answers hq hx hy hmem (hid ▸ hbears)
      · exact hfail _

/-- **What the network stage does with a window** is within every contract that allows it. -/
theorem obeys_network : (sendWindow C.promises).Obeys C :=
  obeys_sendWindow (fun _ hp => obeys_sendAlone hC hp (Or.inl rfl)) (fun p _ => hC.back p) fun s =>
    obeys_sendTogether hC s.sent_sublist.subset s.merged

end

/-! ## The contract of a stage -/

/-- The moves that a built-in stage asks for. -/
def Moves : Stage → Move → Prop
  | .getFromCache, m => (∃ payload raw, m = .succeed payload raw) ∨ m = .follow false
  | .getFromNet, m => (∃ payload raw, m = .succeed payload raw) ∨ (∃ error, m = .fail error) ∨
    m = .goTo [.getFromNet]
  | .resolveError, m => m = .goTo [.getFromNet] ∨ m = .goTo [.deliverError]
  | .initial, m => m = .follow true
  | .saveToCache, m => m = .follow true
  | .deliverResult, m => m = .follow true
  | .deliverError, m => m = .follow true
  | .checkAuthToken, m => m = .follow true

/-- The stages whose handlers may end with an error: those that ask the outside world, and the one
that needs a result. -/
def MayBreak (s : Stage) : Prop :=
  s = .getFromCache ∨ s = .getFromNet ∨ s = .saveToCache ∨ s = .deliverResult

/-- The contract of a built-in stage, whatever the world answers. -/
def contract (s : Stage) (ps : List Promise) : Contract where
  promises := ps
  uses _ m := Moves s m
  delivers _ _ := s = .deliverResult ∨ s = .deliverError
  writes _ _ _ := True
  ends _ := MayBreak s
  sees _ _ := True
  fetches _ _ _ := True
  reads _ _ := True
  stores _ := True
  decodes _ _ _ := True
  validates _ _ := True

theorem moves_of_judged {D : Contract} {d : Descriptor} {answer : Json} {m : Move}
    (h : Judged D d answer m) : Moves .getFromNet m := by
  cases h with
  | declared text => exact .inr (.inl ⟨_, rfl⟩)
  | malformed reason => exact .inr (.inl ⟨_, rfl⟩)
  | undecoded raw error => exact .inr (.inl ⟨_, rfl⟩)
  | invalid raw payload error => exact .inr (.inl ⟨_, rfl⟩)
  | valid raw payload => exact .inl ⟨_, _, rfl⟩

/-- The built-in contract allows the network stage all that it does. -/
theorem allowsNetwork_contract (ps : List Promise) : AllowsNetwork (contract .getFromNet ps) where
  fails _ _ := .inr (.inl ⟨_, rfl⟩)
  judged _ _ _ _ := moves_of_judged
  back _ := .inr (.inr rfl)
  ends _ := .inr (.inl rfl)

/-- What the network stage does with a window. -/
theorem obeys_onWindow (window : Duration) (ps : List Promise) :
    ((network window).onWindow ps).Obeys (contract .getFromNet ps) :=
  obeys_network (allowsNetwork_contract ps)

/-- The network stage alone has a window. -/
theorem eq_getFromNet_of_window {window : Duration} {retries : Nat} {s : Stage}
    (h : (block window retries s).window ≠ none) : s = .getFromNet := by
  cases s <;> first | rfl | exact absurd rfl h

/-- What a stage does with one task. -/
theorem obeys_onTask (window : Duration) (retries : Nat) (s : Stage) (p : Promise) :
    ((block window retries s).onTask p).Obeys (contract s [p]) := by
  have hp : p ∈ [p] := List.mem_cons_self
  have hend : ∀ D : Contract, (Routine.finish .ok).Obeys D := fun _ => .inl rfl
  cases s with
  | initial => exact obeys_settle hp rfl (hend _)
  | checkAuthToken => exact obeys_settle hp rfl (hend _)
  | getFromNet => exact obeys_sendAlone (allowsNetwork_contract [p]) hp (hend _)
  | getFromCache =>
    intro x _
    cases x with
    | crashed message => exact .inr (.inl rfl)
    | failed error => exact obeys_settle hp (.inr rfl) (hend _)
    | done found =>
      cases found with
      | none => exact obeys_settle hp (.inr rfl) (hend _)
      | some raw =>
        intro y _
        cases y with
        | crashed message => exact .inr (.inl rfl)
        | failed error => exact obeys_settle hp (.inr rfl) (hend _)
        | done payload => exact obeys_settle hp (.inl ⟨_, _, rfl⟩) (hend _)
  | saveToCache =>
    refine ⟨hp, fun view _ => ?_⟩
    simp only
    split
    · exact obeys_settle hp rfl (hend _)
    · refine ⟨trivial, fun x _ => ?_⟩
      cases x with
      | crashed message => exact .inr (.inr (.inr (.inl rfl)))
      | failed error => exact obeys_settle hp rfl (hend _)
      | done u => exact obeys_settle hp rfl (hend _)
  | deliverResult =>
    refine ⟨hp, fun view _ => ?_⟩
    simp only
    split
    · exact .inr (.inr (.inr (.inr rfl)))
    · exact ⟨⟨hp, .inl rfl⟩, fun _ => obeys_settle hp rfl (hend _)⟩
  | deliverError =>
    exact ⟨hp, fun view _ => ⟨⟨hp, .inr rfl⟩, fun _ => obeys_settle hp rfl (hend _)⟩⟩
  | resolveError =>
    refine ⟨hp, fun view _ => ?_⟩
    simp only
    split
    · exact obeys_settle hp (.inl rfl) (hend _)
    · exact obeys_settle hp (.inr rfl) (hend _)

/-- **The built-in blocks act only through their promises.** -/
theorem proper_block (window : Duration) (retries : Nat) (s : Stage) :
    (block window retries s).Proper := by
  have hown : ∀ (s : Stage) (ps : List Promise), (contract s ps).Le (.own ps) := fun s ps =>
    Contract.le_own (List.Subset.refl ps) (fun _ _ => trivial) (fun _ _ _ => trivial)
      (fun _ _ => trivial) (fun _ => trivial) (fun _ _ _ => trivial) fun _ _ => trivial
  have htask : ∀ s p, ((block window retries s).onTask p).Within [p] := fun s p =>
    (obeys_onTask window retries s p).mono (hown s [p])
  cases s with
  | getFromNet => exact ⟨htask .getFromNet, fun ps => (obeys_onWindow window ps).mono (hown _ ps)⟩
  | initial => exact Block.proper_immediate (htask .initial)
  | checkAuthToken => exact Block.proper_immediate (htask .checkAuthToken)
  | getFromCache => exact Block.proper_immediate (htask .getFromCache)
  | saveToCache => exact Block.proper_immediate (htask .saveToCache)
  | deliverResult => exact Block.proper_immediate (htask .deliverResult)
  | deliverError => exact Block.proper_immediate (htask .deliverError)
  | resolveError => exact Block.proper_immediate (htask .resolveError)

end Stages
end RpcFlow
