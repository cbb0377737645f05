import Mathlib.Order.Filter.AtTopBot.Basic
import Mathlib.Order.Filter.Finite
import Mathlib.Order.OrderIsoNat
import RpcFlow.Proofs.Engine.Acts
import RpcFlow.Proofs.Engine.Agreement

/-!
# Lulls

An infinite run comes to rest piece by piece: each kind of act uses up something that only other kinds
bring, so that it ceases once these have.  Here are the last pieces.  Once no handler is started any
more, those that there are come to the end of their routines, their supervisors have failed what they
left open, no event is added to the bus, and the subscribers have read all there are.

* `eventually_eq_of_le`, `eventually_iff` — what only falls, or is only gained, stays as it is from
  some point on.
* `Routine.wf_next` — a routine comes to an end, however it is answered.
* `Engine.Lull` — the acts of handlers, supervisors and subscribers that do not take place in a step.
* `Engine.eventually_lull` — **once no handler is started, all of these cease**.
-/

set_option autoImplicit false

namespace RpcFlow

open Filter

/-! ## Sequences that come to rest -/

/-- What only falls stays as it is from some point on. -/
theorem eventually_eq_of_le {m : ℕ → ℕ} (h : ∀ᶠ n in atTop, m (n + 1) ≤ m n) :
    ∀ᶠ n in atTop, m (n + 1) = m n := by
  obtain ⟨N, hN⟩ := eventually_atTop.1 h
  have hanti : Antitone fun k => m (N + k) :=
    antitone_nat_of_succ_le fun k => hN (N + k) (Nat.le_add_right N k)
  obtain ⟨K, hK⟩ := WellFoundedLT.antitone_chain_condition hanti
  refine eventually_atTop.2 ⟨N + K, fun n hn => ?_⟩
  obtain ⟨k, rfl⟩ := Nat.exists_eq_add_of_le (Nat.le_trans (Nat.le_add_right N K) hn)
  have hk : K ≤ k := by omega
  exact (hK (k + 1) (by omega)).symm.trans (hK k hk)

/-- What only grows, and not beyond a bound, stays as it is from some point on. -/
theorem eventually_eq_of_ge {m : ℕ → ℕ} {K : ℕ} (h : ∀ n, m n ≤ m (n + 1)) (hK : ∀ n, m n ≤ K) :
    ∀ᶠ n in atTop, m (n + 1) = m n := by
  have hleft : ∀ᶠ n in atTop, K - m (n + 1) = K - m n :=
    eventually_eq_of_le (m := fun n => K - m n) (.of_forall fun n => Nat.sub_le_sub_left (h n) K)
  filter_upwards [hleft] with n hn
  have hle := hK (n + 1)
  have hle' := h n
  omega

/-- What is never lost again once it is gained is gained no more from some point on. -/
theorem eventually_iff {Q : ℕ → Prop} (h : ∀ᶠ n in atTop, Q n → Q (n + 1)) :
    ∀ᶠ n in atTop, Q (n + 1) ↔ Q n := by
  obtain ⟨N, hN⟩ := eventually_atTop.1 h
  by_cases hex : ∃ n, N ≤ n ∧ Q n
  · obtain ⟨K, hK, hQ⟩ := hex
    have hall : ∀ n, K ≤ n → Q n := fun n hn => by
      induction n, hn using Nat.le_induction with
      | base => exact hQ
      | succ n hn ih => exact hN n (Nat.le_trans hK hn) ih
    exact eventually_atTop.2 ⟨K, fun n hn =>
      ⟨fun _ => hall n hn, fun _ => hall (n + 1) (Nat.le_succ_of_le hn)⟩⟩
  · refine eventually_atTop.2 ⟨N, fun n hn => ⟨fun hQ => ?_, fun hQ => ?_⟩⟩
    · exact absurd ⟨n + 1, Nat.le_succ_of_le hn, hQ⟩ hex
    · exact absurd ⟨n, hn, hQ⟩ hex

/-- A sequence comes to rest if what is left of it later does. -/
theorem eventually_of_later {P : ℕ → Prop} {N : ℕ} (h : ∀ᶠ n in atTop, P (N + n)) :
    ∀ᶠ n in atTop, P n := by
  rw [← map_add_atTop_eq_nat N, eventually_map]
  simpa only [Nat.add_comm] using h

/-- What no longer changes has some value. -/
theorem exists_eventually_eq {α : Type} {m : ℕ → α} (h : ∀ᶠ n in atTop, m (n + 1) = m n) :
    ∃ a, ∀ᶠ n in atTop, m n = a := by
  obtain ⟨N, hN⟩ := eventually_atTop.1 h
  refine ⟨m N, eventually_atTop.2 ⟨N, fun n hn => ?_⟩⟩
  induction n, hn using Nat.le_induction with
  | base => rfl
  | succ n hn ih => rw [hN n hn, ih]

/-- What holds from some point on for the first of many, and for all the others, holds for all. -/
theorem eventually_forall {P : ℕ → ℕ → Prop} {K : ℕ} (hin : ∀ i < K, ∀ᶠ n in atTop, P i n)
    (hout : ∀ᶠ n in atTop, ∀ i, K ≤ i → P i n) : ∀ᶠ n in atTop, ∀ i, P i n := by
  have hall := (eventually_all_finite (Set.finite_lt_nat K)).2 hin
  filter_upwards [hall, hout] with n hin hout i
  exact (Nat.lt_or_ge i K).elim (hin i) (hout i)

/-! ## Routines come to an end -/

namespace Routine

/-- A routine may go on with another, depending on what it is told. -/
def Next (r' : Routine) : Routine → Prop
  | finish _ => False
  | look _ k => ∃ x, r' = k x
  | complete _ _ k => ∃ x, r' = k x
  | deliver _ _ k => ∃ x, r' = k x
  | fetch _ _ k => ∃ x, r' = k x
  | readCache _ k => ∃ x, r' = k x
  | writeCache _ _ _ k => ∃ x, r' = k x
  | decode _ _ k => ∃ x, r' = k x
  | validate _ k => ∃ x, r' = k x
  | count _ k => ∃ x, r' = k x
  | announce _ _ k | report _ k | setFlag _ _ _ k | sleep _ k | note _ _ k => r' = k

/-- **A routine comes to an end, however it is answered.** -/
theorem wf_next : WellFounded Next := by
  refine ⟨fun r => ?_⟩
  induction r with
  | finish ending => exact ⟨_, fun r' h => False.elim h⟩
  | announce method headers k ih => exact ⟨_, fun r' h => h ▸ ih⟩
  | report m k ih => exact ⟨_, fun r' h => h ▸ ih⟩
  | setFlag p key value k ih => exact ⟨_, fun r' h => h ▸ ih⟩
  | sleep d k ih => exact ⟨_, fun r' h => h ▸ ih⟩
  | note p n k ih => exact ⟨_, fun r' h => h ▸ ih⟩
  | _ =>
    rename_i ih
    refine ⟨_, fun r' h => ?_⟩
    obtain ⟨x, rfl⟩ := h
    exact ih x

end Routine

/-- What a handler may be about to do once it has carried out an instruction. -/
def HandlerState.Follows (r : Routine) : HandlerState → Prop
  | running r' => r'.Next r
  | ended _ => True

theorem HandlerState.Follows.ne {r : Routine} {state : HandlerState} (h : state.Follows r) :
    state ≠ .running r := by
  rintro rfl
  exact Routine.wf_next.asymmetric r r h h

namespace Engine

variable {σ : Type} {env : Environment σ} {drift : σ → σ → Prop} {e e' : Engine σ}

/-! ## Steps of handlers -/

/-- An instruction ends its handler, if the routine is at its end or looks for a task that there is not,
or the handler goes on with the rest of its routine. -/
theorem instruct_cases (env : Environment σ) (index : Nat) (e : Engine σ) (r : Routine) :
    (∃ ending, (r = .finish ending ∨ ∃ p k, r = .look p k ∧ e.view? p = none) ∧
        e.instruct env index r = e.endHandler index ending) ∨
      ∃ (e₁ : Engine σ) (r' : Routine), e₁.handlers = e.handlers ∧ r'.Next r ∧
        e.instruct env index r = e₁.resume index r' := by
  have hres : ∀ (e₁ : Engine σ) (r' : Routine), e₁.handlers = e.handlers → r'.Next r →
      (∃ ending, (r = .finish ending ∨ ∃ p k, r = .look p k ∧ e.view? p = none) ∧
          e₁.resume index r' = e.endHandler index ending) ∨
        ∃ (e₂ : Engine σ) (r'' : Routine), e₂.handlers = e.handlers ∧ r''.Next r ∧
          e₁.resume index r' = e₂.resume index r'' :=
    fun e₁ r' heq hnext => .inr ⟨e₁, r', heq, hnext, rfl⟩
  cases r with
  | finish ending => exact .inl ⟨ending, .inl rfl, rfl⟩
  | look p k =>
    simp only [instruct]
    split
    · exact hres e _ rfl ⟨_, rfl⟩
    · rename_i hnone
      exact .inl ⟨.ok, .inr ⟨p, k, rfl, hnone⟩, rfl⟩
  | complete p m k => exact hres _ _ (by rw [complete_eq]) ⟨_, rfl⟩
  | deliver p v k => exact hres _ _ (by rw [deliver_eq]) ⟨_, rfl⟩
  | announce method headers k => exact hres _ _ rfl rfl
  | report m k => exact hres _ _ rfl rfl
  | setFlag p key value k => exact hres _ _ rfl rfl
  | sleep d k => exact hres _ _ rfl rfl
  | note p n k => exact hres _ _ rfl rfl
  | _ => exact hres _ _ rfl ⟨_, rfl⟩

/-- An instruction takes its handler further. -/
theorem state_instruct (env : Environment σ) (r : Routine) {index : Nat} {h : Handler}
    (hh : e.handlers[index]? = some h) :
    ∃ state, (e.instruct env index r).handlers[index]? = some (h.at state) ∧ state.Follows r := by
  rcases instruct_cases env index e r with ⟨ending, -, hi⟩ | ⟨e₁, r', heq, hnext, hi⟩
  · refine ⟨.ended ending, ?_, trivial⟩
    rw [hi, endHandler_eq]
    simp only [Array.getElem?_modify, if_true, hh]
    rfl
  · refine ⟨.running r', ?_, hnext⟩
    rw [hi, handlers_resume, if_pos rfl, heq, hh]
    rfl

/-- No instruction starts a handler. -/
theorem size_handlers_instruct (env : Environment σ) (index : Nat) (e : Engine σ) (r : Routine) :
    (e.instruct env index r).handlers.size = e.handlers.size := by
  rcases instruct_cases env index e r with ⟨ending, -, hi⟩ | ⟨e₁, r', heq, -, hi⟩
  · rw [hi, endHandler_eq]
    exact Array.size_modify
  · rw [hi, resume, updateHandler, Array.size_modify, heq]

/-- A step takes a handler further or leaves what it is about to do.  The handler keeps its promises, and
its supervisor goes on waiting for it. -/
theorem Step.handler_next (hs : Step env drift e e') {index : Nat} {h : Handler}
    (hh : e.handlers[index]? = some h) :
    ∃ h', e'.handlers[index]? = some h' ∧ h'.promises = h.promises ∧
      (h.watched = true → h'.watched = true) ∧
      (h'.state = h.state ∨ ∃ r, h.state = .running r ∧ h'.state.Follows r) := by
  have hkept : e'.handlers[index]? = some h → ∃ h', e'.handlers[index]? = some h' ∧
      h'.promises = h.promises ∧ (h.watched = true → h'.watched = true) ∧
      (h'.state = h.state ∨ ∃ r, h.state = .running r ∧ h'.state.Follows r) :=
    fun hh' => ⟨h, hh', rfl, id, .inl rfl⟩
  have hsame : e'.handlers = e.handlers → e'.handlers[index]? = some h :=
    fun hhandlers => by rw [hhandlers, hh]
  have hpush : ∀ x, e'.handlers = e.handlers.push x → e'.handlers[index]? = some h := by
    intro x hhandlers
    have hlt : index < e.handlers.size := (Array.getElem?_eq_some_iff.1 hh).1
    rw [hhandlers, Array.getElem?_push, if_neg (Nat.ne_of_lt hlt), hh]
  cases hs with
  | submit d => exact hkept (hsame (by rw [submit_eq]))
  | shutdown => exact hkept (hsame (by rw [shutdown_eq]))
  | work c rest => exact hkept (hsame (by rw [handle_eq]))
  | stop => exact hkept (hsame (by rw [stopWorker_eq]))
  | read i => exact hkept (hsame (by rw [readBus_eq]))
  | rescue i x ending error p => exact hkept (hsame (by rw [complete_eq]))
  | take stage i rest hc hw =>
    cases ht : (e.setLoop stage { e.loop stage with queue := rest }).tasks[i]? with
    | none => exact hkept (hsame (by rw [handOne_of_none stage ht]; rfl))
    | some t => exact hkept (hpush _ (by rw [(handOne_eq stage ht).2]; rfl))
  | closeWindow stage w => exact hkept (hpush _ (by rw [handWindow_eq]; rfl))
  | run i x r hx hr =>
    by_cases hi : i = index
    · subst hi
      rw [hh] at hx
      cases hx
      obtain ⟨state, hx', hfollows⟩ := state_instruct env r hh
      exact ⟨_, hx', rfl, id, .inr ⟨r, hr, hfollows⟩⟩
    · exact hkept (by rw [handlers_instruct hi, hh])
  | watch i =>
    simp only [updateHandler, Array.getElem?_modify]
    split
    · exact ⟨{ h with watched := true }, by rw [hh]; rfl, rfl, fun _ => rfl, .inl rfl⟩
    · exact ⟨h, hh, rfl, id, .inl rfl⟩
  | _ => exact hkept (hsame rfl)

/-! ## Steps that use promises, and steps that read -/

/-- A step leaves the promises as they are, or one of them is used, or some are made for a handler that is
started. -/
theorem Step.used_cases (hs : Step env drift e e') :
    e'.used = e.used ∨ (∃ k, e'.used = e.used.setIfInBounds k true) ∨
      ∃ n x, e'.used = e.used ++ Array.replicate n false ∧ e'.handlers = e.handlers.push x := by
  have hcomplete : ∀ p m, (e.complete p m).2.used = e.used ∨
      ∃ k, (e.complete p m).2.used = e.used.setIfInBounds k true := by
    intro p m
    by_cases ho : e.isOpen p = true
    · rw [complete_of_isOpen ho]
      exact .inr ⟨p.number, rfl⟩
    · rw [complete_of_used (by simpa using ho)]
      exact .inl rfl
  cases hs with
  | submit d => rw [submit_eq]; exact .inl rfl
  | shutdown => rw [shutdown_eq]; exact .inl rfl
  | work c rest => rw [handle_eq]; exact .inl rfl
  | stop => rw [stopWorker_eq]; exact .inl rfl
  | read i => rw [readBus_eq]; exact .inl rfl
  | rescue i x ending error p => exact (hcomplete p _).imp_right .inl
  | take stage i rest =>
    cases ht : (e.setLoop stage { e.loop stage with queue := rest }).tasks[i]? with
    | none => rw [handOne_of_none stage ht]; exact .inl rfl
    | some t => rw [(handOne_eq stage ht).2]; exact .inr (.inr ⟨_, _, rfl, rfl⟩)
  | closeWindow stage w => rw [handWindow_eq]; exact .inr (.inr ⟨_, _, rfl, rfl⟩)
  | run i x r =>
    have hend : ∀ ending, (e.endHandler i ending).used = e.used := fun ending => by
      rw [endHandler_eq]
    cases r with
    | finish ending => exact .inl (hend ending)
    | look p k =>
      simp only [instruct]
      split
      · exact .inl rfl
      · exact .inl (hend .ok)
    | complete p m k => exact (hcomplete p m).imp_right .inl
    | deliver p v k =>
      have hd : (e.deliver p.task v).2.used = e.used := by rw [deliver_eq]
      exact .inl hd
    | _ => exact .inl rfl
  | _ => exact .inl rfl

/-- A promise that was used stays used. -/
theorem Step.used_kept (hs : Step env drift e e') {k : Nat} (hk : e.used[k]? = some true) :
    e'.used[k]? = some true := by
  have hlt : k < e.used.size := (Array.getElem?_eq_some_iff.1 hk).1
  rcases hs.used_cases with heq | ⟨j, heq⟩ | ⟨n, x, heq, -⟩
  · rw [heq, hk]
  · rw [heq, Array.getElem?_setIfInBounds]
    split
    · rename_i hj
      rw [if_pos (hj ▸ hlt)]
    · exact hk
  · rw [heq, Array.getElem?_append_left hlt, hk]

/-- Promises are made only for handlers that are started. -/
theorem Step.size_used (hs : Step env drift e e') (hsize : e'.handlers.size = e.handlers.size) :
    e'.used.size = e.used.size := by
  rcases hs.used_cases with heq | ⟨k, heq⟩ | ⟨n, x, -, hx⟩
  · rw [heq]
  · rw [heq, Array.size_setIfInBounds]
  · rw [hx, Array.size_push] at hsize
    exact absurd hsize (Nat.succ_ne_self _)

/-- An open promise has not been used. -/
theorem isOpen_iff {p : Promise} : e.isOpen p = true ↔ e.used[p.number]? = some false := by
  rw [isOpen]
  cases e.used[p.number]? with
  | none => simp
  | some b => cases b <;> simp

/-- How many events a subscriber has passed. -/
def position? (e : Engine σ) (index : Nat) : Option Nat := e.subscribers[index]?.map Subscriber.position

/-- The number of events that a subscriber has yet to pass. -/
def unread (e : Engine σ) (index : Nat) : Nat :=
  ((e.position? index).map fun position => e.events.size - position).getD 0

/-- Whoever reads gets further, unless there is nothing to read. -/
theorem receive_position (e : Engine σ) (position : Nat) :
    position ≤ (e.receive position).2 ∧
      (position < e.events.size → position < (e.receive position).2) := by
  unfold receive
  simp only
  split
  · rename_i hlt
    exact ⟨Nat.le_of_lt hlt, fun _ => hlt⟩
  · split
    · exact ⟨Nat.le_succ _, fun _ => Nat.lt_succ_self _⟩
    · rename_i hnone
      rw [Array.getElem?_eq_none_iff] at hnone
      exact ⟨Nat.le_refl _, fun hlt => absurd hnone (Nat.not_le.2 hlt)⟩

theorem position_updateSubscriber (e : Engine σ) (index i : Nat) (f : Subscriber → Subscriber) :
    (e.updateSubscriber index f).position? i =
      if index = i then e.subscribers[i]?.map fun s => (f s).position else e.position? i := by
  simp only [position?, updateSubscriber, Array.getElem?_modify]
  split
  · rw [Option.map_map]
    rfl
  · rfl

/-- What a subscriber reads takes it further; the others stay where they are. -/
theorem position_readBus (e : Engine σ) (index i : Nat) :
    (e.readBus index).position? i =
      if index = i then (e.subscribers[i]?.map fun s =>
        if s.cancelled || e.cancelled then s.position else (e.receive s.position).2)
      else e.position? i := by
  cases hs : e.subscribers[index]? with
  | none =>
    simp only [readBus, hs]
    split
    · rename_i hi
      subst hi
      rw [position?, hs]
      rfl
    · rfl
  | some s =>
    by_cases hended : (s.cancelled || e.cancelled) = true
    · simp only [readBus, hs, if_pos hended]
      split
      · rename_i hi
        subst hi
        rw [position?, hs, Option.map_some, Option.map_some, if_pos hended]
      · rfl
    · have hread : (e.updateSubscriber index fun x =>
          { x with position := (e.receive s.position).2 }).position? i =
          if index = i then (e.subscribers[i]?.map fun s =>
            if s.cancelled || e.cancelled then s.position else (e.receive s.position).2)
          else e.position? i := by
        rw [position_updateSubscriber]
        split
        · rename_i hi
          subst hi
          rw [hs, Option.map_some, Option.map_some, if_neg hended]
        · rfl
      simp only [readBus, hs, if_neg hended]
      split
      · exact hread
      · exact hread
      · split
        · -- what it hears does not move it
          rw [hear, position_updateSubscriber, ← hread]
          split
          · rfl
          · rfl
        · exact hread

/-- As long as no event is added, nobody has more to read than before. -/
theorem Step.unread_le (hs : Step env drift e e') (hevents : e'.events = e.events) (i : Nat) :
    e'.unread i ≤ e.unread i := by
  have hforth : (∀ k, e'.position? i = some k →
      e.events.size ≤ k ∨ ∃ j, e.position? i = some j ∧ j ≤ k) → e'.unread i ≤ e.unread i := by
    intro h
    rw [unread, unread, hevents]
    cases hk : e'.position? i with
    | none => exact Nat.zero_le _
    | some k =>
      rw [Option.map_some, Option.getD_some]
      rcases h k hk with hle | ⟨j, hj, hle⟩
      · omega
      · rw [hj, Option.map_some, Option.getD_some]
        omega
  have hsame : e'.subscribers = e.subscribers → e'.unread i ≤ e.unread i := fun h =>
    hforth fun k hk => .inr ⟨k, by rw [position?, ← h]; exact hk, Nat.le_refl k⟩
  cases hs with
  | submit d => exact hsame (by rw [submit_eq])
  | shutdown => exact hsame (by rw [shutdown_eq])
  | work c rest => exact hsame (by rw [handle_eq])
  | stop => exact hsame (by rw [stopWorker_eq])
  | take stage index rest => exact hsame (by rw [handOne_frame]; rfl)
  | closeWindow stage w => exact hsame (by rw [handWindow_eq]; rfl)
  | run index x r => exact hsame (by rw [instruct_eq])
  | rescue index x ending error p => exact hsame (by rw [complete_eq])
  | subscribe method once =>
    refine hforth fun k hk => ?_
    have hnew : (e.subscribers.push ⟨method, once, e.events.size, false, []⟩)[i]?.map
        Subscriber.position = some k := hk
    rw [Array.getElem?_push] at hnew
    split at hnew
    · cases hnew
      exact .inl (Nat.le_refl _)
    · exact .inr ⟨k, hnew, Nat.le_refl k⟩
  | unsubscribe index =>
    refine hforth fun k hk => .inr ⟨k, ?_, Nat.le_refl k⟩
    have hk : (e.updateSubscriber index fun s => { s with cancelled := true }).position? i = some k := hk
    rw [position_updateSubscriber] at hk
    split at hk <;> exact hk
  | read index =>
    refine hforth fun k hk => .inr ?_
    rw [position_readBus] at hk
    split at hk
    · obtain ⟨s, hs, rfl⟩ := Option.map_eq_some_iff.1 hk
      refine ⟨s.position, by rw [position?, hs]; rfl, ?_⟩
      split
      · exact Nat.le_refl _
      · exact (e.receive_position s.position).1
    · exact ⟨k, hk, Nat.le_refl k⟩
  | _ => exact hsame rfl

/-- Events are added only when a handler carries out an instruction. -/
theorem Step.events_of_states (hs : Step env drift e e')
    (hstates : ∀ index : Nat,
      e'.handlers[index]?.map Handler.state = e.handlers[index]?.map Handler.state) :
    e'.events = e.events := by
  cases hs.deliveries with
  | none h => exact h.events
  | create d hevents => exact hevents
  | deliver index x p v k hx hr heq =>
    obtain ⟨state, hx', hfollows⟩ := state_instruct env (.deliver p v k) hx
    have hsame := hstates index
    rw [heq, hx', hx, Option.map_some, Option.map_some, hr] at hsame
    exact absurd (Option.some.inj hsame) hfollows.ne

/-! ## Lulls -/

/-- Handlers, supervisors and subscribers do nothing of their own in a step. -/
structure Lull (e e' : Engine σ) : Prop where
  states : ∀ index : Nat,
    e'.handlers[index]?.map Handler.state = e.handlers[index]?.map Handler.state
  watched : ∀ index : Nat, e'.handlers[index]?.map Handler.watched = some true ↔
    e.handlers[index]?.map Handler.watched = some true
  used : ∀ k : Nat, e'.used[k]? = some true ↔ e.used[k]? = some true
  unread : ∀ index, e'.unread index = e.unread index

namespace Lull

variable {index : Nat} {h : Handler} (hlull : Lull e e')
include hlull

theorem not_run {r : Routine} (hx : e.handlers[index]? = some h) (hr : h.state = .running r) :
    e' ≠ e.instruct env index r := by
  rintro rfl
  obtain ⟨state, hx', hfollows⟩ := state_instruct env r hx
  have hsame := hlull.states index
  rw [hx', hx, Option.map_some, Option.map_some, hr] at hsame
  exact hfollows.ne (Option.some.inj hsame)

theorem not_watch (hx : e.handlers[index]? = some h) (hw : h.watched = false) :
    e' ≠ e.updateHandler index fun h => { h with watched := true } := by
  rintro rfl
  have hsame := hlull.watched index
  simp only [updateHandler, Array.getElem?_modify, if_true, hx, Option.map_some, hw, true_iff] at hsame
  exact Bool.noConfusion (Option.some.inj hsame)

theorem not_rescue {p : Promise} {m : Move} (ho : e.isOpen p = true) : e' ≠ (e.complete p m).2 := by
  rintro rfl
  have hfree := isOpen_iff.1 ho
  have hlt : p.number < e.used.size := (Array.getElem?_eq_some_iff.1 hfree).1
  have hsame := (hlull.used p.number).1 (by
    rw [complete_of_isOpen ho]
    simp only [Array.getElem?_setIfInBounds, if_true, hlt])
  rw [hfree] at hsame
  exact Bool.noConfusion (Option.some.inj hsame)

theorem not_read {s : Subscriber} (hs : e.subscribers[index]? = some s) (hlive : s.cancelled = false)
    (hc : e.cancelled = false) (hpos : s.position < e.events.size) : e' ≠ e.readBus index := by
  rintro rfl
  have hsame := hlull.unread index
  have hevents : (e.readBus index).events = e.events := by rw [readBus_eq]
  have hfurther := (e.receive_position s.position).2 hpos
  have hlt : (if s.cancelled || e.cancelled then s.position else (e.receive s.position).2) =
      (e.receive s.position).2 := by
    rw [hlive, hc]
    rfl
  rw [Engine.unread, Engine.unread, hevents, position_readBus, if_pos rfl, position?, hs,
    Option.map_some, Option.map_some, Option.map_some, Option.map_some, Option.getD_some,
    Option.getD_some, hlt] at hsame
  omega

end Lull

section

variable {run : ℕ → Engine σ} (hstep : ∀ n, Step env drift (run n) (run (n + 1)))
include hstep

/-- A handler that no step takes further stays where it is. -/
theorem eventually_state_of_kept {N index : Nat} {h : Handler} (hh : (run N).handlers[index]? = some h)
    (hnot : ∀ (n : Nat) (r : Routine) (h' : Handler), N ≤ n → h.state = .running r →
      (run (n + 1)).handlers[index]? = some h' → ¬h'.state.Follows r) :
    ∀ᶠ n in atTop,
      (run (n + 1)).handlers[index]?.map Handler.state = (run n).handlers[index]?.map Handler.state := by
  have hall : ∀ n, N ≤ n → (run n).handlers[index]?.map Handler.state = some h.state := by
    intro n hn
    induction n, hn using Nat.le_induction with
    | base => rw [hh, Option.map_some]
    | succ n hn ih =>
      obtain ⟨x, hx, hxst⟩ := Option.map_eq_some_iff.1 ih
      obtain ⟨x', hx', -, -, heq | ⟨r, hr, hfollows⟩⟩ := (hstep n).handler_next hx
      · rw [hx', Option.map_some, heq, hxst]
      · exact absurd hfollows (hnot n r x' hn (hxst ▸ hr) hx')
  exact eventually_atTop.2 ⟨N, fun n hn => by rw [hall n hn, hall (n + 1) (Nat.le_succ_of_le hn)]⟩

/-- A handler comes to the end of its routine, or no further. -/
theorem eventually_state {N index : Nat} {h : Handler} (hh : (run N).handlers[index]? = some h) :
    ∀ᶠ n in atTop,
      (run (n + 1)).handlers[index]?.map Handler.state = (run n).handlers[index]?.map Handler.state := by
  have hended : ∀ {N : Nat} {h : Handler} {ending : Ending}, (run N).handlers[index]? = some h →
      h.state = .ended ending → ∀ᶠ n in atTop,
        (run (n + 1)).handlers[index]?.map Handler.state =
          (run n).handlers[index]?.map Handler.state := by
    intro N h ending hh hst
    refine eventually_state_of_kept hstep hh fun n r h' _ hr => ?_
    rw [hst] at hr
    cases hr
  cases hst : h.state with
  | ended ending => exact hended hh hst
  | running r =>
    -- by induction on what is left of the routine
    induction r using Routine.wf_next.induction generalizing N h with
    | _ r ih =>
      by_cases hmove : ∃ n x', N ≤ n ∧ (run (n + 1)).handlers[index]? = some x' ∧ x'.state.Follows r
      · obtain ⟨n, x', -, hx', hfollows⟩ := hmove
        cases hst' : x'.state with
        | ended ending => exact hended hx' hst'
        | running r' =>
          rw [hst'] at hfollows
          exact ih r' hfollows hx' hst'
      · refine eventually_state_of_kept hstep hh fun n r' x' hn hr' hx' hfollows => ?_
        rw [hst] at hr'
        cases hr'
        exact hmove ⟨n, x', hn, hx', hfollows⟩

section

variable (hsize : ∀ᶠ n in atTop, (run (n + 1)).handlers.size = (run n).handlers.size)
include hsize

/-- Once no handler is started any more, all handlers come to the ends of their routines, -/
theorem eventually_states : ∀ᶠ n in atTop, ∀ index : Nat,
    (run (n + 1)).handlers[index]?.map Handler.state =
      (run n).handlers[index]?.map Handler.state := by
  obtain ⟨K, hK⟩ := exists_eventually_eq (m := fun n => (run n).handlers.size) hsize
  obtain ⟨N, hN⟩ := eventually_atTop.1 hK
  refine eventually_forall (K := K) (fun index hi => ?_) ?_
  · exact eventually_state hstep
      (Array.getElem?_eq_getElem (show index < (run N).handlers.size from hN N (Nat.le_refl N) ▸ hi))
  · filter_upwards [hK, hsize] with n hn hn' index hi
    rw [Array.getElem?_eq_none (by omega), Array.getElem?_eq_none (by omega)]

/-- every handler has its supervisor, or will have none, -/
theorem eventually_watched : ∀ᶠ n in atTop, ∀ index : Nat,
    (run (n + 1)).handlers[index]?.map Handler.watched = some true ↔
      (run n).handlers[index]?.map Handler.watched = some true := by
  obtain ⟨K, hK⟩ := exists_eventually_eq (m := fun n => (run n).handlers.size) hsize
  refine eventually_forall (K := K) (fun index _ => ?_) ?_
  · refine eventually_iff (Q := fun n => (run n).handlers[index]?.map Handler.watched = some true)
      (.of_forall fun n hw => ?_)
    obtain ⟨x, hx, hxw⟩ := Option.map_eq_some_iff.1 hw
    obtain ⟨x', hx', -, hw', -⟩ := (hstep n).handler_next hx
    rw [hx', Option.map_some, hw' hxw]
  · filter_upwards [hK, hsize] with n hn hn' index hi
    rw [Array.getElem?_eq_none (by omega), Array.getElem?_eq_none (by omega)]

/-- no promise is used any more, -/
theorem eventually_used : ∀ᶠ n in atTop, ∀ k : Nat,
    (run (n + 1)).used[k]? = some true ↔ (run n).used[k]? = some true := by
  have hmade : ∀ᶠ n in atTop, (run (n + 1)).used.size = (run n).used.size := by
    filter_upwards [hsize] with n hn
    exact (hstep n).size_used hn
  obtain ⟨K, hK⟩ := exists_eventually_eq (m := fun n => (run n).used.size) hmade
  refine eventually_forall (K := K) (fun k _ => ?_) ?_
  · exact eventually_iff (Q := fun n => (run n).used[k]? = some true)
      (.of_forall fun n hk => (hstep n).used_kept hk)
  · filter_upwards [hK, hmade] with n hn hn' k hk
    rw [Array.getElem?_eq_none (by omega), Array.getElem?_eq_none (by omega)]

/-- and nobody has anything left to read. -/
theorem eventually_unread : ∀ᶠ n in atTop, ∀ index, (run (n + 1)).unread index = (run n).unread index := by
  have hle : ∀ᶠ n in atTop, ∀ index, (run (n + 1)).unread index ≤ (run n).unread index := by
    filter_upwards [eventually_states hstep hsize] with n hn index
    exact (hstep n).unread_le ((hstep n).events_of_states hn) index
  obtain ⟨M, hM⟩ := eventually_atTop.1 hle
  refine eventually_forall (K := (run M).subscribers.size) (fun index _ => ?_) ?_
  · refine eventually_eq_of_le (m := fun n => (run n).unread index) ?_
    filter_upwards [hle] with n hn
    exact hn index
  · -- those that subscribe later have nothing to catch up on
    have hzero : ∀ n, M ≤ n → ∀ index, (run M).subscribers.size ≤ index →
        (run n).unread index = 0 := by
      intro n hn index hi
      induction n, hn using Nat.le_induction with
      | base =>
        rw [unread, position?, Array.getElem?_eq_none hi]
        rfl
      | succ n hn ih => exact Nat.le_zero.1 (ih ▸ hM n hn index)
    refine eventually_atTop.2 ⟨M, fun n hn index hi => ?_⟩
    rw [hzero n hn index hi, hzero (n + 1) (Nat.le_succ_of_le hn) index hi]

/-- **Once no handler is started any more, handlers, supervisors and subscribers come to rest.** -/
theorem eventually_lull : ∀ᶠ n in atTop, Lull (run n) (run (n + 1)) := by
  filter_upwards [eventually_states hstep hsize, eventually_watched hstep hsize,
    eventually_used hstep hsize, eventually_unread hstep hsize] with n h₁ h₂ h₃ h₄
  exact ⟨h₁, h₂, h₃, h₄⟩

end

end

end Engine
end RpcFlow
