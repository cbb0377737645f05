import RpcFlow.Proofs.Engine.Delivery
import RpcFlow.Proofs.Engine.Lulls
import RpcFlow.Proofs.Engine.Traces

/-!
# Promises are not forgotten

A handler whose routine ended well, but forgot one of its promises, would leave a task behind for ever: its
supervisor would have nothing to report.  The built-in stages forget nothing: their routines end well
only after they have used each promise that they were given.

* `Routine.Discharges` — however a routine is answered, it ends well only after it has used a promise.
* `Block.Thorough`, `Stages.thorough_block` — the routines of the built-in blocks use all their promises.
* `Engine.Diligent`, `Engine.Reachable.diligent` — in a run, a handler that has ended with a promise
  still open has ended badly, so that its supervisor will use the promise.
-/

set_option autoImplicit false

namespace RpcFlow

namespace Routine

/-- However a routine is answered, it ends well only after it has used the promise with this number. -/
def Discharges (n : Nat) : Routine → Prop
  | finish ending => ending ≠ .ok
  | complete p _ k => p.number = n ∨ ∀ done, Discharges n (k done)
  | look _ k => ∀ view, Discharges n (k view)
  | deliver _ _ k => ∀ first, Discharges n (k first)
  | fetch _ _ k => ∀ x, Discharges n (k x)
  | readCache _ k => ∀ x, Discharges n (k x)
  | writeCache _ _ _ k => ∀ x, Discharges n (k x)
  | decode _ _ k => ∀ x, Discharges n (k x)
  | validate _ k => ∀ x, Discharges n (k x)
  | count _ k => ∀ x, Discharges n (k x)
  | announce _ _ k => Discharges n k
  | report _ k => Discharges n k
  | setFlag _ _ _ k => Discharges n k
  | sleep _ k => Discharges n k
  | note _ _ k => Discharges n k

/-- What has not been used yet is still to be used by the rest of a routine. -/
theorem Discharges.next {n : Nat} {r r' : Routine} (h : r.Discharges n) (hnext : r'.Next r)
    (hr : ∀ p m k, r = .complete p m k → p.number ≠ n) : r'.Discharges n := by
  cases r with
  | finish ending => exact hnext.elim
  | complete p m k =>
    obtain ⟨x, rfl⟩ := hnext
    exact h.resolve_left (hr p m k rfl) x
  | announce method headers k => exact hnext ▸ h
  | report m k => exact hnext ▸ h
  | setFlag p key value k => exact hnext ▸ h
  | sleep d k => exact hnext ▸ h
  | note p n' k => exact hnext ▸ h
  | _ =>
    obtain ⟨x, rfl⟩ := hnext
    exact h x

end Routine

/-- A block whose routines use all promises that they are given, unless they end badly. -/
structure Block.Thorough (b : Block) : Prop where
  onTask : ∀ p, (b.onTask p).Discharges p.number
  onWindow : b.window ≠ none → ∀ ps, ∀ p ∈ ps, (b.onWindow ps).Discharges p.number

namespace Stages

variable {p q : Promise} {ps : List Promise} {n : Nat} {k : Routine}

theorem discharges_crash (n : Nat) (message : String) :
    (Routine.finish (.crashed message)).Discharges n := Ending.noConfusion

/-- A promise is used now, or by what follows. -/
theorem discharges_settle {m : Move} (h : p.number = n ∨ k.Discharges n) :
    (settle p m k).Discharges n := h.imp_right fun hk _ => hk

theorem discharges_settleWith (answer : Json) (h : p.number = n ∨ k.Discharges n) :
    (settleWith p answer k).Discharges n := by
  simp only [settleWith]
  split
  · exact discharges_settle h
  · exact discharges_settle h
  · intro x
    cases x with
    | crashed message => exact discharges_crash n message
    | failed error => exact discharges_settle h
    | done payload =>
      intro y
      cases y with
      | crashed message => exact discharges_crash n message
      | failed error => exact discharges_settle h
      | done u => exact discharges_settle h

theorem discharges_sendAlone (p : Promise) (k : Routine) : (sendAlone p k).Discharges p.number := by
  intro x
  cases x with
  | crashed message => exact discharges_crash _ message
  | failed error => exact discharges_settle (.inl rfl)
  | answered response =>
    intro y
    cases y with
    | crashed message => exact discharges_crash _ message
    | failed error => exact discharges_settle (.inl rfl)
    | done answer => exact discharges_settleWith answer (.inl rfl)

theorem discharges_announceAll (headers : Dict String) (hk : k.Discharges n) (ps : List Promise) :
    (announceAll headers k ps).Discharges n := by
  induction ps with
  | nil => exact hk
  | cons p ps ih => exact ih

theorem discharges_reportAll (hk : k.Discharges n) (ms : List Message) :
    (reportAll k ms).Discharges n := by
  induction ms with
  | nil => exact hk
  | cons m ms ih => exact ih

theorem discharges_failAll (error : CallError) (hp : p ∈ ps) :
    (failAll error ps).Discharges p.number := by
  induction ps with
  | nil => exact absurd hp List.not_mem_nil
  | cons q ps ih =>
    rcases List.mem_cons.1 hp with rfl | hp
    · exact discharges_settle (.inl rfl)
    · exact discharges_settle (.inr (ih hp))

theorem discharges_settleEach (entries : Batch.Entries) (hp : p ∈ ps) :
    (settleEach entries ps).Discharges p.number := by
  induction ps generalizing entries with
  | nil => exact absurd hp List.not_mem_nil
  | cons q ps ih =>
    have hsettled : ∀ left, q.number = p.number ∨ (settleEach left ps).Discharges p.number :=
      fun left => (List.mem_cons.1 hp).imp (fun h => congrArg Promise.number h.symm) (ih left)
    unfold settleEach
    split
    · exact discharges_settleWith _ (hsettled _)
    · exact discharges_settle (hsettled _)

theorem discharges_sendTogether (headers : Dict String) (hp : p ∈ ps) :
    (sendTogether ps headers).Discharges p.number := by
  obtain _ | ⟨q, ps⟩ := ps
  · exact absurd hp List.not_mem_nil
  intro x
  cases x with
  | crashed message => exact discharges_crash _ message
  | failed error => exact discharges_failAll _ hp
  | answered response =>
    refine discharges_announceAll _ ?_ _
    intro y
    cases y with
    | crashed message => exact discharges_crash _ message
    | failed error => exact discharges_failAll _ hp
    | done answer =>
      simp only [settleAll]
      split
      · exact discharges_reportAll (discharges_settleEach _ hp) _
      · exact discharges_failAll _ hp

theorem discharges_sendBack (h : p ∈ ps ∨ k.Discharges p.number) :
    (sendBack k ps).Discharges p.number := by
  induction ps with
  | nil => exact h.resolve_left List.not_mem_nil
  | cons q ps ih =>
    rw [List.mem_cons, or_assoc] at h
    exact discharges_settle (h.imp (fun h => congrArg Promise.number h.symm) ih)

theorem discharges_putOff (reason : DeferReason) (h : p ∈ ps ∨ k.Discharges p.number) :
    (putOff reason ps k).Discharges p.number := by
  unfold putOff
  split
  · rename_i hnil
    rw [List.isEmpty_iff.1 hnil] at h
    exact h.resolve_left List.not_mem_nil
  · exact discharges_sendBack h

/-- Each promise of a window is put off or sent. -/
theorem discharges_sendWindow (hp : p ∈ ps) : (sendWindow ps).Discharges p.number := by
  obtain ⟨s, hs⟩ := exists_sorting ps
  have hmem := s.perm.symm.subset hp
  rw [Batch.Sorting.deferred, List.append_assoc, List.append_assoc, List.mem_append, List.mem_append,
    List.mem_append] at hmem
  rw [hs, dispatch]
  refine discharges_putOff _ (hmem.imp_right fun hmem => ?_)
  refine discharges_putOff _ (hmem.imp_right fun hmem => ?_)
  refine discharges_putOff _ (hmem.imp_right fun hmem => ?_)
  unfold unlessAlone
  split
  · rename_i q hone
    rw [hone, List.mem_singleton] at hmem
    exact hmem ▸ discharges_sendAlone _ _
  · exact discharges_sendTogether _ hmem

/-- What a stage does with one task. -/
theorem discharges_onTask (window : Duration) (retries : Nat) (s : Stage) (p : Promise) :
    ((block window retries s).onTask p).Discharges p.number := by
  cases s with
  | initial => exact discharges_settle (.inl rfl)
  | checkAuthToken => exact discharges_settle (.inl rfl)
  | getFromNet => exact discharges_sendAlone p _
  | getFromCache =>
    have hmiss : (settle p (.follow false) (.finish .ok)).Discharges p.number :=
      discharges_settle (.inl rfl)
    intro x
    cases x with
    | crashed message => exact discharges_crash _ message
    | failed error => exact hmiss
    | done found =>
      cases found with
      | none => exact hmiss
      | some raw =>
        intro y
        cases y with
        | crashed message => exact discharges_crash _ message
        | failed error => exact hmiss
        | done payload => exact discharges_settle (m := .succeed payload (some raw)) (.inl rfl)
  | saveToCache =>
    have hleave : (settle p (.follow true) (.finish .ok)).Discharges p.number :=
      discharges_settle (.inl rfl)
    intro view
    simp only
    split
    · exact hleave
    · intro x
      cases x with
      | crashed message => exact discharges_crash _ message
      | failed error => exact hleave
      | done u => exact hleave
  | deliverResult =>
    intro view
    simp only
    split
    · exact Ending.noConfusion
    · exact fun _ => discharges_settle (.inl rfl)
  | deliverError => exact fun view _ => discharges_settle (.inl rfl)
  | resolveError =>
    intro view
    simp only
    split
    · exact discharges_settle (m := .goTo [.getFromNet]) (.inl rfl)
    · exact discharges_settle (.inl rfl)

/-- **The built-in stages forget no promise.** -/
theorem thorough_block (window : Duration) (retries : Nat) (s : Stage) :
    (block window retries s).Thorough where
  onTask := discharges_onTask window retries s
  onWindow hw ps p hp := by
    obtain rfl : s = .getFromNet := eq_getFromNet_of_window hw
    exact discharges_sendWindow hp

end Stages

/-- A handler will end well only after it has used the promise with a number, if it has not ended yet. -/
def Handler.Discharges (h : Handler) (n : Nat) : Prop :=
  match h.state with
  | .running r => r.Discharges n
  | .ended ending => ending ≠ .ok

namespace Engine

variable {σ : Type} {env : Environment σ} {drift : σ → σ → Prop} {blocks : Stage → Block}
  {e e' : Engine σ}

/-- Handlers will use the promises that are open, or end badly. -/
def Diligent (e : Engine σ) : Prop :=
  ∀ (index : Nat) (h : Handler), e.handlers[index]? = some h → ∀ p ∈ h.promises, e.isOpen p = true →
    h.Discharges p.number

/-- A routine finds the tasks of its promises, so that it does not come to a sudden end. -/
theorem Ledger.view?_ne_none (hl : Ledger e) {index : Nat} {h : Handler}
    (hh : e.handlers[index]? = some h) {p : Promise} {k : TaskView → Routine}
    (hr : h.state = .running (.look p k)) : e.view? p ≠ none := by
  have hp : p ∈ h.promises := (hl.within index h hh _ hr).1
  obtain ⟨t, ht, -⟩ := hl.promised p (mem_issued hh hp)
  rw [view?, ht]
  exact Option.some_ne_none _

/-- An instruction that does not use a promise leaves it to the rest of the routine. -/
theorem discharges_instruct (hl : Ledger e) {index n : Nat} {h h' : Handler} {r : Routine}
    (hh : e.handlers[index]? = some h) (hr : h.state = .running r) (hd : r.Discharges n)
    (hnot : ∀ p m k, r = .complete p m k → p.number ≠ n)
    (hh' : (e.instruct env index r).handlers[index]? = some h') : h'.Discharges n := by
  rcases instruct_cases env index e r with ⟨ending, hend, hi⟩ | ⟨e₁, r', heq, hnext, hi⟩
  · rw [hi, endHandler_eq] at hh'
    simp only [Array.getElem?_modify, if_true, hh] at hh'
    cases hh'
    rcases hend with rfl | ⟨p, k, rfl, hnone⟩
    · exact hd
    · exact absurd hnone (hl.view?_ne_none hh hr)
  · rw [hi, handlers_resume, if_pos rfl, heq, hh] at hh'
    cases hh'
    exact hd.next hnext hnot

namespace Diligent

theorem step (h : Diligent e) (hl : Ledger e) (heff : Effect e e') (hs : Step env drift e e')
    (hc : e'.cancelled = false) (hb : ∀ s, (e.blocks s).Thorough) : Diligent e' := by
  intro index x' hx' p hp ho
  rcases hs.handler_back hl hc hx' with ⟨x, hx, hk⟩ | ⟨x, r, state, hx, hr, rfl, rfl⟩ | ⟨-, hst⟩
  · rw [hk.promises] at hp
    have hd := h index x hx p hp (heff.open_back (mem_issued hx hp) ho)
    rwa [Handler.Discharges, hk.state]
  · have hd := h index x hx p hp (heff.open_back (mem_issued hx hp) ho)
    rw [Handler.Discharges, hr] at hd
    refine discharges_instruct hl hx hr hd (fun q m k hq hn => ?_) hx'
    -- the promise would be closed
    subst hq
    have hclosed : (e.instruct env index (.complete q m k)).isOpen p = closing e.isOpen q p :=
      congrFun (isOpen_complete_eq e q m) p
    rw [hclosed, closing, hn] at ho
    simp at ho
  · rcases hst.routine with ⟨-, q, hq, hrun⟩ | ⟨hw, hrun, -⟩
    · rw [hq, List.mem_singleton] at hp
      subst hp
      rw [Handler.Discharges, hrun]
      exact (hb _).onTask p
    · rw [Handler.Discharges, hrun]
      exact (hb _).onWindow hw _ p hp

end Diligent

/-- **Open promises are in good hands**, in every state of every run. -/
theorem Reachable.diligent (he : Reachable env drift blocks e) (hb : ∀ s, (blocks s).Proper)
    (ht : ∀ s, (blocks s).Thorough) (hc : e.cancelled = false) : Diligent e := by
  induction he with
  | start world => exact fun index h hh => by simp [Engine.start] at hh
  | @step e e' he hs ih =>
    have hc₀ := hs.frame.2.1 hc
    exact (ih hc₀).step (he.ledger hb hc₀) (he.effect hb hs hc) hs hc fun s => he.blocks_eq ▸ ht s

end Engine
end RpcFlow
