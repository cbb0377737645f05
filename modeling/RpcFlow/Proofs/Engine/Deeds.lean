import RpcFlow.Proofs.Engine.Contracts

/-!
# What routines do

A contract says what a routine may do.  What it does, from its first instruction to its end, depends on
what it is told: on the answers of the outside world, and on whether its promises are open.  A routine
ensures something of its deeds if it holds whatever the answers are.

* `Deed` — the use of a promise, or a call.
* `Routine.Ensures` — however a routine is answered within a contract, it comes to its end, and what it
  has done until then has a property.
* `Routine.Ensures.possible` — nothing is ensured only because it cannot be answered.
* `Truthful`, `Routine.ensures_truthful` — a promise can be used once.
-/

set_option autoImplicit false

namespace RpcFlow

/-- Something a routine does that others notice. -/
inductive Deed where
  /-- It uses a promise, and is told whether the promise was open. -/
  | used (p : Promise) (m : Move) (done : Bool)
  | called (transport : String) (call : WireCall)

/-- The promises that are open after one has been used. -/
def closing (isOpen : Promise → Bool) (p : Promise) : Promise → Bool :=
  fun q => isOpen q && q.number != p.number

/-- Promises with different numbers stay open when one of them is used. -/
theorem open_closing {isOpen : Promise → Bool} {p : Promise} {ps : List Promise}
    (hn : ((p :: ps).map Promise.number).Nodup) (hopen : ∀ q ∈ p :: ps, isOpen q = true) :
    ∀ q ∈ ps, closing isOpen p q = true := by
  rw [List.map_cons, List.nodup_cons] at hn
  intro q hq
  rw [closing, hopen q (List.mem_cons_of_mem p hq), Bool.true_and, bne_iff_ne]
  exact fun heq => hn.1 (heq ▸ List.mem_map_of_mem hq)

namespace Routine

/-- However a routine is answered within a contract, it comes to its end, having done something that has
a property. -/
def Ensures (C : Contract) :
    Routine → (Promise → Bool) → (List Deed → Ending → Prop) → Prop
  | finish ending, _, Q => Q [] ending
  | look p k, isOpen, Q => Q [] .ok ∧ ∀ x, C.sees p x → Ensures C (k x) isOpen Q
  | complete p m k, isOpen, Q =>
    Ensures C (k (isOpen p)) (closing isOpen p) fun deeds ending =>
      Q (.used p m (isOpen p) :: deeds) ending
  | deliver _ _ k, isOpen, Q => ∀ first, Ensures C (k first) isOpen Q
  | fetch transport call k, isOpen, Q =>
    ∀ x, C.fetches transport call x →
      Ensures C (k x) isOpen fun deeds ending => Q (.called transport call :: deeds) ending
  | readCache key k, isOpen, Q => ∀ x, C.reads key x → Ensures C (k x) isOpen Q
  | writeCache _ _ _ k, isOpen, Q => ∀ x, C.stores x → Ensures C (k x) isOpen Q
  | decode body type k, isOpen, Q => ∀ x, C.decodes body type x → Ensures C (k x) isOpen Q
  | validate value k, isOpen, Q => ∀ x, C.validates value x → Ensures C (k x) isOpen Q
  | announce _ _ k, isOpen, Q => Ensures C k isOpen Q
  | report _ k, isOpen, Q => Ensures C k isOpen Q
  | setFlag _ _ _ k, isOpen, Q => Ensures C k isOpen Q
  | sleep _ k, isOpen, Q => Ensures C k isOpen Q
  | count _ k, isOpen, Q => ∀ x, Ensures C (k x) isOpen Q
  | note _ _ k, isOpen, Q => Ensures C k isOpen Q

variable {C : Contract} {r : Routine} {isOpen : Promise → Bool} {Q Q' : List Deed → Ending → Prop}

/-- What follows from something ensured is ensured too. -/
theorem Ensures.mono (h : r.Ensures C isOpen Q) (hQ : ∀ deeds ending, Q deeds ending → Q' deeds ending) :
    r.Ensures C isOpen Q' := by
  induction r generalizing isOpen Q Q' with
  | finish ending => exact hQ [] ending h
  | look p k ih => exact ⟨hQ [] .ok h.1, fun x hx => ih x (h.2 x hx) hQ⟩
  | complete p m k ih => exact ih _ h fun deeds ending => hQ _ ending
  | deliver p v k ih => exact fun first => ih first (h first) hQ
  | fetch transport call k ih => exact fun x hx => ih x (h x hx) fun deeds ending => hQ _ ending
  | count stage k ih => exact fun x => ih x (h x) hQ
  | readCache key k ih => exact fun x hx => ih x (h x hx) hQ
  | writeCache key value lifetime k ih => exact fun x hx => ih x (h x hx) hQ
  | decode body type k ih => exact fun x hx => ih x (h x hx) hQ
  | validate value k ih => exact fun x hx => ih x (h x hx) hQ
  | _ => rename_i ih; exact ih h hQ

theorem Ensures.and (h : r.Ensures C isOpen Q) (h' : r.Ensures C isOpen Q') :
    r.Ensures C isOpen fun deeds ending => Q deeds ending ∧ Q' deeds ending := by
  induction r generalizing isOpen Q Q' with
  | finish ending => exact ⟨h, h'⟩
  | look p k ih => exact ⟨⟨h.1, h'.1⟩, fun x hx => ih x (h.2 x hx) (h'.2 x hx)⟩
  | complete p m k ih => exact ih _ h h'
  | deliver p v k ih => exact fun first => ih first (h first) (h' first)
  | count stage k ih => exact fun x => ih x (h x) (h' x)
  | fetch transport call k ih => exact fun x hx => ih x (h x hx) (h' x hx)
  | readCache key k ih => exact fun x hx => ih x (h x hx) (h' x hx)
  | writeCache key value lifetime k ih => exact fun x hx => ih x (h x hx) (h' x hx)
  | decode body type k ih => exact fun x hx => ih x (h x hx) (h' x hx)
  | validate value k ih => exact fun x hx => ih x (h x hx) (h' x hx)
  | _ => rename_i ih; exact ih h h'

end Routine

/-- Whatever is asked, the contract allows some answer. -/
structure Contract.Responsive (C : Contract) : Prop where
  fetches : ∀ transport call, ∃ x, C.fetches transport call x
  reads : ∀ key, ∃ x, C.reads key x
  stores : ∃ x, C.stores x
  decodes : ∀ body type, ∃ x, C.decodes body type x
  validates : ∀ value, ∃ x, C.validates value x

/-- **Nothing impossible is ensured.** -/
theorem Routine.Ensures.possible {C : Contract} {r : Routine} {isOpen : Promise → Bool}
    {Q : List Deed → Ending → Prop} (h : r.Ensures C isOpen Q) (hC : C.Responsive) :
    ∃ deeds ending, Q deeds ending := by
  induction r generalizing isOpen Q with
  | finish ending => exact ⟨[], ending, h⟩
  | look p k => exact ⟨[], .ok, h.1⟩
  | complete p m k ih =>
    obtain ⟨deeds, ending, hq⟩ := ih _ h
    exact ⟨_, ending, hq⟩
  | deliver p v k ih => exact ih true (h true)
  | fetch transport call k ih =>
    obtain ⟨x, hx⟩ := hC.fetches transport call
    obtain ⟨deeds, ending, hq⟩ := ih x (h x hx)
    exact ⟨_, ending, hq⟩
  | readCache key k ih =>
    obtain ⟨x, hx⟩ := hC.reads key
    exact ih x (h x hx)
  | writeCache key value lifetime k ih =>
    obtain ⟨x, hx⟩ := hC.stores
    exact ih x (h x hx)
  | decode body type k ih =>
    obtain ⟨x, hx⟩ := hC.decodes body type
    exact ih x (h x hx)
  | validate value k ih =>
    obtain ⟨x, hx⟩ := hC.validates value
    exact ih x (h x hx)
  | count stage k ih => exact ih 0 (h 0)
  | _ => rename_i ih; exact ih h

/-! ## Promises can be used once -/

namespace Deed

/-- The promise that is used. -/
def promise? : Deed → Option Promise
  | used p _ _ => some p
  | called .. => none

/-- The promise whose task is sent somewhere without a result. -/
def deferred? : Deed → Option Promise
  | used p m done => if done && (p.verdict m).isRoute then some p else none
  | called .. => none

/-- The call and its transport. -/
def call? : Deed → Option (String × WireCall)
  | used .. => none
  | called transport call => some (transport, call)

end Deed

/-- Only the first use of a promise finds it open. -/
def Truthful : (Promise → Bool) → List Deed → Prop
  | _, [] => True
  | isOpen, .used p _ done :: deeds => done = isOpen p ∧ Truthful (closing isOpen p) deeds
  | isOpen, .called _ _ :: deeds => Truthful isOpen deeds

/-- **A routine is told the truth about its promises.** -/
theorem Routine.ensures_truthful (C : Contract) (r : Routine) (isOpen : Promise → Bool) :
    r.Ensures C isOpen fun deeds _ => Truthful isOpen deeds := by
  induction r generalizing isOpen with
  | finish ending => exact trivial
  | look p k ih => exact ⟨trivial, fun x _ => ih x isOpen⟩
  | complete p m k ih => exact (ih _ _).mono fun deeds ending h => ⟨rfl, h⟩
  | deliver p v k ih => exact fun first => ih first isOpen
  | count stage k ih => exact fun x => ih x isOpen
  | fetch transport call k ih => exact fun x _ => (ih x isOpen).mono fun deeds ending h => h
  | readCache key k ih => exact fun x _ => ih x isOpen
  | writeCache key value lifetime k ih => exact fun x _ => ih x isOpen
  | decode body type k ih => exact fun x _ => ih x isOpen
  | validate value k ih => exact fun x _ => ih x isOpen
  | _ => rename_i ih; exact ih isOpen

/-- Open promises that are used once each are found open. -/
theorem Truthful.done {isOpen : Promise → Bool} {deeds : List Deed} (h : Truthful isOpen deeds)
    (hn : ((deeds.filterMap Deed.promise?).map Promise.number).Nodup)
    (hopen : ∀ p ∈ deeds.filterMap Deed.promise?, isOpen p = true) {p : Promise} {m : Move}
    {done : Bool} (hmem : .used p m done ∈ deeds) : done = true := by
  induction deeds generalizing isOpen with
  | nil => exact absurd hmem List.not_mem_nil
  | cons d deeds ih =>
    cases d with
    | called transport call => exact ih h hn hopen (by simpa using hmem)
    | used q m' done' =>
      rw [List.filterMap_cons_some (show Deed.promise? (.used q m' done') = some q from rfl)]
        at hn hopen
      rcases List.mem_cons.1 hmem with heq | hmem
      · cases heq
        exact h.1.trans (hopen p List.mem_cons_self)
      · exact ih h.2 (List.nodup_cons.1 hn).2 (open_closing hn hopen) hmem

end RpcFlow
