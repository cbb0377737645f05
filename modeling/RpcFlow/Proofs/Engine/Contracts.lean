import RpcFlow.Proofs.Engine.Changes

/-!
# Contracts of routines

A contract says what a routine may do with promises, deliveries and the cache, provided that what it
is told keeps to the contract too.  Whether a routine obeys a contract is decided by its instructions
alone; a handler whose routine obeys one keeps to it through every instruction.

* `Contract`, `Routine.Obeys`, `Handler.Keeps` — a contract, and what keeps to it.
* `Routine.Obeys.mono`, `Routine.Obeys.andThen` — weaker contracts, and one routine after another.
* `Engine.keeps_instruct`, `Engine.Step.keeps` — carrying out an instruction keeps a contract, and so
  does every step.
* `Contract.own`, `Block.Proper` — the least that is asked of a block: its routines act only through
  the promises they are given.
-/

set_option autoImplicit false

namespace RpcFlow

/-- What a routine may do, and what it may count on. -/
structure Contract where
  /-- It may act through these promises only. -/
  promises : List Promise
  /-- It may use a promise this way. -/
  uses : Promise → Move → Prop
  delivers : Promise → Verdict → Prop
  writes : String → String → Duration → Prop
  /-- It may end this way, if it does not end well. -/
  ends : Ending → Prop
  /-- It sees nothing of the task of a promise but this. -/
  sees : Promise → TaskView → Prop
  fetches : String → WireCall → WireOutcome → Prop
  reads : String → Outcome (Option String) → Prop
  stores : Outcome Unit → Prop
  decodes : Option String → ResultType → Outcome Json → Prop
  validates : Json → Outcome Unit → Prop

namespace Routine

/-- A routine that keeps to a contract as long as it is told what the contract promises it. -/
def Obeys (C : Contract) : Routine → Prop
  | finish ending => ending = .ok ∨ C.ends ending
  | look p k => p ∈ C.promises ∧ ∀ x, C.sees p x → Obeys C (k x)
  | complete p m k => (p ∈ C.promises ∧ C.uses p m) ∧ ∀ x, Obeys C (k x)
  | deliver p v k => (p ∈ C.promises ∧ C.delivers p v) ∧ ∀ x, Obeys C (k x)
  | fetch transport call k => ∀ x, C.fetches transport call x → Obeys C (k x)
  | readCache key k => ∀ x, C.reads key x → Obeys C (k x)
  | writeCache key value lifetime k =>
    C.writes key value lifetime ∧ ∀ x, C.stores x → Obeys C (k x)
  | decode body type k => ∀ x, C.decodes body type x → Obeys C (k x)
  | validate value k => ∀ x, C.validates value x → Obeys C (k x)
  | announce _ _ k => Obeys C k
  | report _ k => Obeys C k
  | setFlag p _ _ k => p ∈ C.promises ∧ Obeys C k
  | sleep _ k => Obeys C k
  | count _ k => ∀ x, Obeys C (k x)
  | note p _ k => p ∈ C.promises ∧ Obeys C k

end Routine

/-- The second contract asks for less and promises more. -/
structure Contract.Le (C D : Contract) : Prop where
  promises : C.promises ⊆ D.promises
  uses : ∀ p m, C.uses p m → D.uses p m
  delivers : ∀ p v, C.delivers p v → D.delivers p v
  writes : ∀ key value lifetime, C.writes key value lifetime → D.writes key value lifetime
  ends : ∀ ending, C.ends ending → D.ends ending
  sees : ∀ p x, D.sees p x → C.sees p x
  fetches : ∀ transport call x, D.fetches transport call x → C.fetches transport call x
  reads : ∀ key x, D.reads key x → C.reads key x
  stores : ∀ x, D.stores x → C.stores x
  decodes : ∀ body type x, D.decodes body type x → C.decodes body type x
  validates : ∀ value x, D.validates value x → C.validates value x

namespace Routine.Obeys

variable {C D : Contract} {r : Routine}

theorem mono (h : r.Obeys C) (hle : C.Le D) : r.Obeys D := by
  induction r with
  | finish ending => exact h.imp_right (hle.ends ending)
  | look p k ih => exact ⟨hle.promises h.1, fun x hx => ih x (h.2 x (hle.sees p x hx))⟩
  | complete p m k ih =>
    exact ⟨⟨hle.promises h.1.1, hle.uses p m h.1.2⟩, fun x => ih x (h.2 x)⟩
  | deliver p v k ih =>
    exact ⟨⟨hle.promises h.1.1, hle.delivers p v h.1.2⟩, fun x => ih x (h.2 x)⟩
  | fetch transport call k ih => exact fun x hx => ih x (h x (hle.fetches transport call x hx))
  | readCache key k ih => exact fun x hx => ih x (h x (hle.reads key x hx))
  | writeCache key value lifetime k ih =>
    exact ⟨hle.writes key value lifetime h.1, fun x hx => ih x (h.2 x (hle.stores x hx))⟩
  | decode body type k ih => exact fun x hx => ih x (h x (hle.decodes body type x hx))
  | validate value k ih => exact fun x hx => ih x (h x (hle.validates value x hx))
  | setFlag p key value k ih => exact ⟨hle.promises h.1, ih h.2⟩
  | note p n k ih => exact ⟨hle.promises h.1, ih h.2⟩
  | count stage k ih => exact fun x => ih x (h x)
  | announce method headers k ih => exact ih h
  | report m k ih => exact ih h
  | sleep d k ih => exact ih h

theorem andThen {after : Ending → Routine} (h : r.Obeys C)
    (ha : ∀ ending, ending = .ok ∨ C.ends ending → (after ending).Obeys C) :
    (r.andThen after).Obeys C := by
  induction r with
  | finish ending => exact ha ending h
  | look p k ih => exact ⟨h.1, fun x hx => ih x (h.2 x hx)⟩
  | complete p m k ih => exact ⟨h.1, fun x => ih x (h.2 x)⟩
  | deliver p v k ih => exact ⟨h.1, fun x => ih x (h.2 x)⟩
  | writeCache key value lifetime k ih => exact ⟨h.1, fun x hx => ih x (h.2 x hx)⟩
  | setFlag p key value k ih => exact ⟨h.1, ih h.2⟩
  | note p n k ih => exact ⟨h.1, ih h.2⟩
  | count stage k ih => exact fun x => ih x (h x)
  | announce method headers k ih => exact ih h
  | report m k ih => exact ih h
  | sleep d k ih => exact ih h
  | _ => rename_i ih; exact fun x hx => ih x (h x hx)

end Routine.Obeys

/-- A handler that goes on or has ended as a contract allows. -/
def Handler.Keeps (h : Handler) (C : Contract) : Prop :=
  match h.state with
  | .running r => r.Obeys C
  | .ended ending => ending = .ok ∨ C.ends ending

/-- A handler as it is about to do something else. -/
def Handler.at (h : Handler) (state : HandlerState) : Handler := { h with state }

namespace Engine

variable {σ : Type} {env : Environment σ} {e : Engine σ}

/-- The answers that the world and the engine give now are such as the contract promises. -/
structure Answers (env : Environment σ) (e : Engine σ) (C : Contract) : Prop where
  sees : ∀ p view, e.view? p = some view → C.sees p view
  fetches : ∀ transport call, C.fetches transport call (env.fetch e.now transport call e.world).2.1
  reads : ∀ key, C.reads key (env.readCache e.now key e.world).1
  stores : ∀ key value lifetime, C.stores (env.writeCache e.now key value lifetime e.world).1
  decodes : ∀ body type, C.decodes body type (env.decode body type e.world).1
  validates : ∀ value, C.validates value (env.validate value e.world).1

/-- Only the handler that carries out an instruction changes. -/
theorem handlers_instruct {index j : Nat} (hj : index ≠ j) (r : Routine) :
    (e.instruct env index r).handlers[j]? = e.handlers[j]? := by
  have hres : ∀ (e' : Engine σ) (r' : Routine), e'.handlers = e.handlers →
      (e'.resume index r').handlers[j]? = e.handlers[j]? := by
    intro e' r' he'
    rw [handlers_resume, if_neg hj, he']
  have hend : ∀ ending, (e.endHandler index ending).handlers[j]? = e.handlers[j]? := by
    intro ending
    rw [endHandler_eq]
    simp only [Array.getElem?_modify, if_neg hj]
  cases r with
  | finish ending => exact hend ending
  | look p k =>
    simp only [instruct]
    split
    · exact hres e _ rfl
    · exact hend .ok
  | complete p m k => exact hres _ _ (by rw [complete_eq])
  | deliver p v k => exact hres _ _ (by rw [deliver_eq])
  | _ => exact hres _ _ rfl

/-- **A handler that obeys a contract goes on obeying it**, if it is answered accordingly. -/
theorem keeps_instruct {C : Contract} {index : Nat} {h : Handler} {r : Routine}
    (hi : e.handlers[index]? = some h) (hr : r.Obeys C) (ha : e.Answers env C) :
    ∃ state, (e.instruct env index r).handlers[index]? = some (h.at state) ∧
      (h.at state).Keeps C := by
  have hres : ∀ (e' : Engine σ) (r' : Routine), e'.handlers = e.handlers → r'.Obeys C →
      ∃ state, (e'.resume index r').handlers[index]? = some (h.at state) ∧
        (h.at state).Keeps C := by
    intro e' r' he' hr'
    refine ⟨.running r', ?_, hr'⟩
    rw [handlers_resume, if_pos rfl, he', hi]
    rfl
  have hend : ∀ ending, ending = .ok ∨ C.ends ending →
      ∃ state, (e.endHandler index ending).handlers[index]? = some (h.at state) ∧
        (h.at state).Keeps C := by
    intro ending he
    refine ⟨.ended ending, ?_, he⟩
    rw [endHandler_eq]
    simp only [Array.getElem?_modify, if_true, hi]
    rfl
  cases r with
  | finish ending => exact hend ending hr
  | look p k =>
    simp only [instruct]
    split
    · rename_i view hv
      exact hres e _ rfl (hr.2 view (ha.sees p view hv))
    · exact hend .ok (.inl rfl)
  | complete p m k => exact hres _ _ (by rw [complete_eq]) (hr.2 _)
  | deliver p v k => exact hres _ _ (by rw [deliver_eq]) (hr.2 _)
  | fetch transport call k => exact hres _ _ rfl (hr _ (ha.fetches transport call))
  | readCache key k => exact hres _ _ rfl (hr _ (ha.reads key))
  | writeCache key value lifetime k =>
    exact hres _ _ rfl (hr.2 _ (ha.stores key value lifetime))
  | decode body type k => exact hres _ _ rfl (hr _ (ha.decodes body type))
  | validate value k => exact hres _ _ rfl (hr _ (ha.validates value))
  | announce method headers k => exact hres _ _ rfl hr
  | report m k => exact hres _ _ rfl hr
  | setFlag p key value k => exact hres _ _ rfl hr.2
  | sleep d k => exact hres _ _ rfl hr
  | count stage k => exact hres _ _ rfl (hr _)
  | note p n k => exact hres _ _ rfl hr.2

/-- **Every handler keeps to the contract of its stage**, if blocks start them so and they are
answered accordingly. -/
theorem Step.keeps {drift : σ → σ → Prop} {e' : Engine σ} {C : Stage → List Promise → Contract}
    (hs : Step env drift e e')
    (task : ∀ s p, (e.blocks s).window = none → ((e.blocks s).onTask p).Obeys (C s [p]))
    (window : ∀ s ps, (e.blocks s).window ≠ none → ((e.blocks s).onWindow ps).Obeys (C s ps))
    (answers : ∀ (index : Nat) (x : Handler), e.handlers[index]? = some x →
      e.Answers env (C x.stage x.promises))
    (h : ∀ (index : Nat) (x : Handler), e.handlers[index]? = some x →
      x.Keeps (C x.stage x.promises))
    {index : Nat} {x' : Handler} (hx' : e'.handlers[index]? = some x') :
    x'.Keeps (C x'.stage x'.promises) := by
  have hsame : e'.handlers = e.handlers → x'.Keeps (C x'.stage x'.promises) :=
    fun hh => h index x' (hh ▸ hx')
  -- a new handler comes after the others
  have hpush : ∀ x : Handler, e'.handlers = e.handlers.push x → x.Keeps (C x.stage x.promises) →
      x'.Keeps (C x'.stage x'.promises) := by
    intro x hh hx
    rw [hh, Array.getElem?_push] at hx'
    split at hx'
    · exact Option.some.inj hx' ▸ hx
    · exact h index x' hx'
  cases hs with
  | submit d => exact hsame (by rw [submit_eq])
  | shutdown => exact hsame (by rw [shutdown_eq])
  | work c rest => exact hsame (by rw [handle_eq])
  | stop => exact hsame (by rw [stopWorker_eq])
  | read i => exact hsame (by rw [readBus_eq])
  | rescue i x ending error p => exact hsame (by rw [complete_eq])
  | take stage i rest hc hw =>
    cases ht : (e.setLoop stage { e.loop stage with queue := rest }).tasks[i]? with
    | none => exact hsame (by rw [handOne_of_none stage ht]; rfl)
    | some t =>
      obtain ⟨hps, he⟩ := handOne_eq stage ht
      refine hpush _ (by rw [he]; rfl) ?_
      rw [hps]
      exact task stage _ hw
  | closeWindow stage w hc hw =>
    refine hpush _ (by rw [handWindow_eq]; rfl) ?_
    exact window stage _ hw
  | run i x r hx hr =>
    by_cases hi : i = index
    · subst hi
      have hkeeps := h i x hx
      rw [Handler.Keeps, hr] at hkeeps
      obtain ⟨state, hx'', hkeeps'⟩ := keeps_instruct hx hkeeps (answers i x hx)
      rw [hx'] at hx''
      cases hx''
      exact hkeeps'
    · rw [handlers_instruct hi] at hx'
      exact h index x' hx'
  | watch i =>
    simp only [updateHandler, Array.getElem?_modify] at hx'
    split at hx'
    · obtain ⟨x, hx, rfl⟩ := Option.map_eq_some_iff.1 hx'
      exact h index x hx
    · exact h index x' hx'
  | _ => exact hsame rfl

end Engine

/-! ## Routines that act only through their promises -/

/-- The contract that asks for nothing else but to act through certain promises. -/
def Contract.own (ps : List Promise) : Contract where
  promises := ps
  uses _ _ := True
  delivers _ _ := True
  writes _ _ _ := True
  ends _ := True
  sees _ _ := True
  fetches _ _ _ := True
  reads _ _ := True
  stores _ := True
  decodes _ _ _ := True
  validates _ _ := True

/-- A routine that acts through these promises only, whatever the world answers. -/
def Routine.Within (ps : List Promise) (r : Routine) : Prop := r.Obeys (.own ps)

theorem Engine.Answers.own {σ : Type} {env : Environment σ} {e : Engine σ} {ps : List Promise} :
    e.Answers env (.own ps) :=
  ⟨fun _ _ _ => trivial, fun _ _ => trivial, fun _ => trivial, fun _ _ _ => trivial,
    fun _ _ => trivial, fun _ => trivial⟩

/-- A block whose routines act only through the promises they are given. -/
structure Block.Proper (b : Block) : Prop where
  onTask : ∀ p, (b.onTask p).Within [p]
  onWindow : ∀ ps, (b.onWindow ps).Within ps

theorem Contract.le_own {C : Contract} {ps : List Promise} (hp : C.promises ⊆ ps)
    (hs : ∀ p x, C.sees p x) (hf : ∀ transport call x, C.fetches transport call x)
    (hr : ∀ key x, C.reads key x) (hw : ∀ x, C.stores x)
    (hd : ∀ body type x, C.decodes body type x) (hv : ∀ value x, C.validates value x) :
    C.Le (.own ps) where
  promises := hp
  uses _ _ _ := trivial
  delivers _ _ _ := trivial
  writes _ _ _ _ := trivial
  ends _ _ := trivial
  sees p x _ := hs p x
  fetches transport call x _ := hf transport call x
  reads key x _ := hr key x
  stores x _ := hw x
  decodes body type x _ := hd body type x
  validates value x _ := hv value x

theorem Routine.Within.mono {ps qs : List Promise} {r : Routine} (h : r.Within ps)
    (hs : ps ⊆ qs) : r.Within qs :=
  Obeys.mono h (Contract.le_own hs (fun _ _ => trivial) (fun _ _ _ => trivial)
    (fun _ _ => trivial) (fun _ => trivial) (fun _ _ _ => trivial) fun _ _ => trivial)

namespace Block

theorem within_inTurn {onTask : Promise → Routine} (h : ∀ p, (onTask p).Within [p])
    (ps : List Promise) : (inTurn onTask ps).Within ps := by
  induction ps with
  | nil => exact .inl rfl
  | cons p rest ih =>
    have hrest : (inTurn onTask rest).Within (p :: rest) :=
      ih.mono (List.subset_cons_self p rest)
    have hp : (onTask p).Within (p :: rest) := (h p).mono (by simp)
    refine Routine.Obeys.andThen hp fun ending _ => ?_
    cases ending with
    | ok => exact hrest
    | failed error => exact ⟨⟨List.mem_cons_self, trivial⟩, fun _ => hrest⟩
    | crashed message => exact .inr trivial

/-- A block that handles its tasks one by one needs to keep to the promise of each. -/
theorem proper_immediate {onTask : Promise → Routine} (h : ∀ p, (onTask p).Within [p]) :
    (immediate onTask).Proper :=
  ⟨h, within_inTurn h⟩

theorem proper_passing : passing.Proper :=
  proper_immediate fun _ => ⟨⟨List.mem_cons_self, trivial⟩, fun _ => .inl rfl⟩

end Block
end RpcFlow
