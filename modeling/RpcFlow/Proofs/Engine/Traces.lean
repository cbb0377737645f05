import RpcFlow.Proofs.Engine.Deeds
import RpcFlow.Proofs.Engine.Effects

/-!
# What handlers do in a run

What a routine ensures is read off the routine alone.  In a run, other steps lie between its
instructions; but its promises are in nobody else's hands, so that it finds them as it left them.  Once
its handler has ended, it has done what its routine ensured.

* `Engine.Trace`, `Engine.Steps.exists_trace` — a run, and what one handler does in it.
* `Engine.owes_instruct`, `Engine.Kept.owes` — what is still owed after an instruction, and after a step
  that leaves the handler alone.
* `Engine.Trace.ensured` — what was owed has been done.
-/

set_option autoImplicit false

namespace RpcFlow

/-- What a routine ensures depends on its own promises only. -/
theorem Routine.Ensures.congr {C : Contract} {r : Routine} {isOpen isOpen' : Promise → Bool}
    {Q : List Deed → Ending → Prop} {ps : List Promise} (h : r.Ensures C isOpen Q)
    (hr : r.Within ps) (hopen : ∀ p ∈ ps, isOpen' p = isOpen p) : r.Ensures C isOpen' Q := by
  induction r generalizing isOpen isOpen' Q with
  | finish ending => exact h
  | look p k ih => exact ⟨h.1, fun x hx => ih x (h.2 x hx) (hr.2 x trivial) hopen⟩
  | complete p m k ih =>
    have hafter : ∀ q ∈ ps, closing isOpen' p q = closing isOpen p q := fun q hq => by
      rw [closing, closing, hopen q hq]
    rw [Ensures, hopen p hr.1.1]
    exact ih _ h (hr.2 _) hafter
  | deliver p v k ih => exact fun first => ih first (h first) (hr.2 first) hopen
  | fetch transport call k ih => exact fun x hx => ih x (h x hx) (hr x trivial) hopen
  | readCache key k ih => exact fun x hx => ih x (h x hx) (hr x trivial) hopen
  | writeCache key value lifetime k ih =>
    exact fun x hx => ih x (h x hx) (hr.2 x trivial) hopen
  | decode body type k ih => exact fun x hx => ih x (h x hx) (hr x trivial) hopen
  | validate value k ih => exact fun x hx => ih x (h x hx) (hr x trivial) hopen
  | announce method headers k ih => exact ih h hr hopen
  | report m k ih => exact ih h hr hopen
  | setFlag p key value k ih => exact ih h hr.2 hopen
  | sleep d k ih => exact ih h hr hopen
  | count stage k ih => exact fun x => ih x (h x) (hr x) hopen
  | note p n k ih => exact ih h hr.2 hopen

/-- What a handler still has to do: what its routine ensures, or nothing if it has ended. -/
def Handler.Owes (h : Handler) (C : Contract) (isOpen : Promise → Bool)
    (Q : List Deed → Ending → Prop) : Prop :=
  match h.state with
  | .running r => r.Ensures C isOpen Q
  | .ended ending => Q [] ending

namespace Engine

variable {σ : Type} {env : Environment σ} {drift : σ → σ → Prop} {blocks : Stage → Block}
  {e e' : Engine σ} {C : Contract} {Q : List Deed → Ending → Prop}

/-- What others notice of an instruction. -/
def deeds (e : Engine σ) : Routine → List Deed
  | .complete p m _ => [.used p m (e.isOpen p)]
  | .fetch transport call _ => [.called transport call]
  | _ => []

/-- A promise that is used is closed, and no other is. -/
theorem isOpen_complete_eq (e : Engine σ) (p : Promise) (m : Move) :
    (e.complete p m).2.isOpen = closing e.isOpen p := by
  funext q
  by_cases ho : e.isOpen p = true
  · rw [isOpen_complete ho, closing]
    split
    · rename_i hn
      rw [bne_eq_false_iff_eq.2 hn, Bool.and_false]
    · rename_i hn
      rw [bne_iff_ne.2 hn, Bool.and_true]
  · rw [complete_of_used (by simpa using ho), closing]
    by_cases hn : q.number = p.number
    · have hq : e.isOpen q = e.isOpen p := by rw [isOpen, isOpen, hn]
      rw [hq, Bool.eq_false_iff.2 ho, Bool.false_and]
    · rw [bne_iff_ne.2 hn, Bool.and_true]

/-- **An instruction is a part of what is owed**, and the rest is owed after it. -/
theorem owes_instruct {index : Nat} {h : Handler} {r : Routine}
    (hi : e.handlers[index]? = some h) (hr : r.Ensures C e.isOpen Q) (ha : e.Answers env C) :
    ∃ state, (e.instruct env index r).handlers[index]? = some (h.at state) ∧
      (h.at state).Owes C (e.instruct env index r).isOpen
        fun ds ending => Q (e.deeds r ++ ds) ending := by
  have hres : ∀ (e' : Engine σ) (r' : Routine) (Q' : List Deed → Ending → Prop),
      e'.handlers = e.handlers → r'.Ensures C e'.isOpen Q' →
      ∃ state, (e'.resume index r').handlers[index]? = some (h.at state) ∧
        (h.at state).Owes C (e'.resume index r').isOpen Q' := by
    intro e' r' Q' he' hr'
    refine ⟨.running r', ?_, hr'⟩
    rw [handlers_resume, if_pos rfl, he', hi]
    rfl
  have hend : ∀ ending, Q [] ending →
      ∃ state, (e.endHandler index ending).handlers[index]? = some (h.at state) ∧
        (h.at state).Owes C (e.endHandler index ending).isOpen Q := by
    intro ending hq
    refine ⟨.ended ending, ?_, hq⟩
    rw [endHandler_eq]
    simp only [Array.getElem?_modify, if_true, hi]
    rfl
  cases r with
  | finish ending => exact hend ending hr
  | look p k =>
    simp only [instruct]
    split
    · rename_i view hv
      exact hres e _ Q rfl (hr.2 view (ha.sees p view hv))
    · exact hend .ok hr.1
  | complete p m k =>
    have hdone : (e.complete p m).1 = e.isOpen p := by
      by_cases ho : e.isOpen p = true
      · rw [complete_of_isOpen ho, ho]
      · rw [complete_of_used (by simpa using ho), Bool.eq_false_iff.2 ho]
    refine hres _ _ _ (by rw [complete_eq]) ?_
    rw [isOpen_complete_eq, hdone]
    exact hr
  | deliver p v k =>
    have hopen : (e.deliver p.task v).2.isOpen = e.isOpen := by
      rw [deliver_eq]
      rfl
    refine hres _ _ Q (by rw [deliver_eq]) ?_
    rw [hopen]
    exact hr _
  | fetch transport call k => exact hres _ _ _ rfl (hr _ (ha.fetches transport call))
  | readCache key k => exact hres _ _ Q rfl (hr _ (ha.reads key))
  | writeCache key value lifetime k => exact hres _ _ Q rfl (hr _ (ha.stores key value lifetime))
  | decode body type k => exact hres _ _ Q rfl (hr _ (ha.decodes body type))
  | validate value k => exact hres _ _ Q rfl (hr _ (ha.validates value))
  | announce method headers k => exact hres _ _ Q rfl hr
  | report m k => exact hres _ _ Q rfl hr
  | setFlag p key value k => exact hres _ _ Q rfl hr
  | sleep d k => exact hres _ _ Q rfl hr
  | count stage k => exact hres _ _ Q rfl (hr _)
  | note p n k => exact hres _ _ Q rfl hr

/-- A handler that is left alone owes what it owed. -/
theorem Kept.owes {h h' : Handler} (hk : Kept e e' h h')
    (hw : ∀ r, h.state = .running r → r.Within h.promises) (ho : h.Owes C e.isOpen Q) :
    h'.Owes C e'.isOpen Q := by
  rw [Handler.Owes, hk.state]
  rw [Handler.Owes] at ho
  cases hs : h.state with
  | running r =>
    rw [hs] at ho
    exact Routine.Ensures.congr ho (hw r hs) (hk.isOpen ⟨r, hs⟩)
  | ended ending =>
    rw [hs] at ho
    exact ho

/-- A run, and what one handler does in it while others do other things. -/
inductive Trace (env : Environment σ) (drift : σ → σ → Prop) (index : Nat) :
    Engine σ → List Deed → Engine σ → Prop
  | refl (e : Engine σ) : Trace env drift index e [] e
  /-- The handler carries out its next instruction. -/
  | own {e e' : Engine σ} {h : Handler} {r : Routine} {ds : List Deed} :
    e.handlers[index]? = some h → h.state = .running r →
    Trace env drift index (e.instruct env index r) ds e' →
      Trace env drift index e (e.deeds r ++ ds) e'
  /-- Something else happens. -/
  | other {e e₁ e' : Engine σ} {ds : List Deed} : Step env drift e e₁ →
    (∀ h r, e.handlers[index]? = some h → h.state = .running r → e₁ ≠ e.instruct env index r) →
    Trace env drift index e₁ ds e' → Trace env drift index e ds e'

/-- In every run, a handler does something. -/
theorem Steps.exists_trace (index : Nat) (hs : Steps env drift e e') :
    ∃ ds, Trace env drift index e ds e' := by
  induction hs using Relation.ReflTransGen.head_induction_on with
  | refl => exact ⟨[], .refl e'⟩
  | @head e e₁ hstep _ ih =>
    obtain ⟨ds, ht⟩ := ih
    by_cases hown : ∃ h r, e.handlers[index]? = some h ∧ h.state = .running r ∧
        e₁ = e.instruct env index r
    · obtain ⟨h, r, hh, hr, rfl⟩ := hown
      exact ⟨_, .own hh hr ht⟩
    · exact ⟨ds, .other hstep (fun h r hh hr heq => hown ⟨h, r, hh, hr, heq⟩) ht⟩

namespace Trace

variable {index : Nat} {ds : List Deed}

theorem steps (ht : Trace env drift index e ds e') : Steps env drift e e' := by
  induction ht with
  | refl e => exact .refl
  | own hh hr _ ih => exact .head (.run _ index _ _ hh hr) ih
  | other hs _ _ ih => exact .head hs ih

/-- What is owed at the start of a run is, at its end, partly done and partly still owed. -/
theorem owes (ht : Trace env drift index e ds e') (he : Reachable env drift blocks e)
    (hb : ∀ s, (blocks s).Proper) (hc : e'.cancelled = false)
    (ha : ∀ e : Engine σ, e.Answers env C) {h : Handler} (hh : e.handlers[index]? = some h)
    (ho : h.Owes C e.isOpen Q) :
    ∃ h', e'.handlers[index]? = some h' ∧
      h'.Owes C e'.isOpen fun rest ending => Q (ds ++ rest) ending := by
  induction ht generalizing h Q with
  | refl e => exact ⟨h, hh, ho⟩
  | own hh' hr _ ih =>
    rw [hh] at hh'
    cases hh'
    rw [Handler.Owes, hr] at ho
    obtain ⟨state, hh₁, ho₁⟩ := owes_instruct hh ho (ha _)
    obtain ⟨h', hh', ho'⟩ := ih (he.step (.run _ index _ _ hh hr)) hc hh₁ ho₁
    refine ⟨h', hh', ?_⟩
    simp only [List.append_assoc]
    exact ho'
  | @other e e₁ e' ds hs hnot ht ih =>
    have hc₁ : e₁.cancelled = false := ht.steps.cancelled hc
    have hl : Ledger e := he.ledger hb (hs.frame.2.1 hc₁)
    rcases hs.handler_forth hl hc₁ hh with ⟨h₁, hh₁, hk⟩ | ⟨r, hr, heq⟩
    · exact ih (he.step hs) hc hh₁ (hk.owes (hl.within index h hh) ho)
    · exact absurd heq (hnot h r hh hr)

/-- **What a routine ensures is what its handler has done once it has ended**, whatever else happens
in the meantime. -/
theorem ensured (ht : Trace env drift index e ds e') (he : Reachable env drift blocks e)
    (hb : ∀ s, (blocks s).Proper) (hc : e'.cancelled = false)
    (ha : ∀ e : Engine σ, e.Answers env C) {h h' : Handler} {r : Routine} {ending : Ending}
    (hh : e.handlers[index]? = some h) (hr : h.state = .running r) (hens : r.Ensures C e.isOpen Q)
    (hh' : e'.handlers[index]? = some h') (hend : h'.state = .ended ending) : Q ds ending := by
  have howes : h.Owes C e.isOpen Q := by
    rw [Handler.Owes, hr]
    exact hens
  obtain ⟨x, hx, ho⟩ := ht.owes he hb hc ha hh howes
  rw [hh'] at hx
  cases hx
  rw [Handler.Owes, hend] at ho
  simpa using ho

end Trace
end Engine
end RpcFlow
