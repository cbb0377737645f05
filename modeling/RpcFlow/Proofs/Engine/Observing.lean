import RpcFlow.Proofs.Engine.Hearing

/-!
# What observers see

An observer is not called: it is asked for one result at a time, whenever its owner likes, and passes
over what is not a success of its method.  What it has returned, in the order of the questions, are the
payloads that a subscriber of the same method would have been called with.

* `Observer.advance_of_not_lags` — what one question comes to.
* `Engine.Watches` — runs in which an observer is asked now and then and is never lagged.
* `Engine.Sees`, `Engine.Watches.sees` — **an observer yields the payloads of its method**.
-/

set_option autoImplicit false

namespace RpcFlow

/-- What a reading adds to those before it. -/
def Reading.items {α : Type} : Reading α → List α
  | item x => [x]
  | waiting | ended => []

/-- The payload that an event brings an observer of a method. -/
def Event.payload? (method : String) (x : Event) : Option Json :=
  (x.call? method).bind Except.toOption

/-- The payloads for an observer are the successes that a subscriber is called with. -/
theorem Event.filterMap_payload? (method : String) (l : List Event) :
    (l.filterMap (Event.call? method)).filterMap Except.toOption = l.filterMap (Event.payload? method) :=
  List.filterMap_filterMap

theorem Event.payload?_eq (x : Event) (method : String) :
    x.payload? method =
      match x.verdict with
      | .success payload _ _ => if (x.method == method) = true then some payload else none
      | _ => none := by
  unfold payload? call?
  by_cases hm : x.method = method
  · cases x.verdict <;> simp [hm, Verdict.call?, Except.toOption]
  · cases x.verdict <;> simp [hm]

namespace Observer

open Engine

variable {σ : Type} {e : Engine σ}

theorem advance_zero (o : Observer) (e : Engine σ) : o.advance 0 e = (.waiting, o, e) := rfl

-- As in the loop of subscribers, Lean is not to count the events that the bus keeps.
seal busCapacity in
theorem advance_succ (o : Observer) (fuel : Nat) (e : Engine σ) :
    o.advance (fuel + 1) e =
      let (received, position) := e.receive o.position
      match received with
      | .nothing => (.waiting, o, e)
      | .lagged skipped =>
        advance { o with position } fuel (e.report (.subscriptionLagged o.method skipped))
      | .event x =>
        match x.verdict with
        | .success payload _ _ =>
          if x.method == o.method then (.item payload, { o with position }, e)
          else advance { o with position } fuel e
        | _ => advance { o with position } fuel e := rfl

/-- An observer stops at an event that brings it a payload, and passes over the others. -/
theorem advance_of_event {o : Observer} {fuel position : Nat} {x : Event}
    (h : e.receive o.position = (.event x, position)) :
    o.advance (fuel + 1) e =
      match x.payload? o.method with
      | some payload => (.item payload, { o with position }, e)
      | none => advance { o with position } fuel e := by
  rw [advance_succ, h, Event.payload?_eq]
  simp only
  split
  · split <;> rfl
  · rfl

/-- **What one question comes to**: the observer passes over events up to the first that brings it a
payload, or up to the end of the bus. -/
theorem advance_of_not_lags {rest : List Event} {o : Observer} {fuel : Nat}
    (hl : ¬e.Lags o.position) (hrest : e.events.toList.drop o.position = rest)
    (hfuel : rest.length < fuel) :
    ∃ reading passed later, rest = passed ++ later ∧
      o.advance fuel e = (reading, { o with position := o.position + passed.length }, e) ∧
      passed.filterMap (Event.payload? o.method) = reading.items ∧ reading ≠ .ended ∧
      (reading = .waiting → later = []) := by
  obtain ⟨fuel, rfl⟩ : ∃ n, fuel = n + 1 := ⟨fuel - 1, by omega⟩
  induction rest generalizing o fuel with
  | nil =>
    have hend : e.events[o.position]? = none := by
      rw [← Array.getElem?_toList, List.getElem?_eq_none_iff]
      exact List.drop_eq_nil_iff.1 hrest
    have hnothing : e.receive o.position = (.nothing, o.position) := by
      rw [receive_of_not_lags hl, hend]
    refine ⟨.waiting, [], [], rfl, ?_, rfl, nofun, fun _ => rfl⟩
    rw [advance_succ, hnothing]
    rfl
  | cons x rest ih =>
    have hx : e.events[o.position]? = some x := by
      rw [← Array.getElem?_toList, ← List.head?_drop, hrest]
      rfl
    have hevent : e.receive o.position = (.event x, o.position + 1) := by
      rw [receive_of_not_lags hl, hx]
    rw [advance_of_event hevent]
    cases hpayload : x.payload? o.method with
    | some payload =>
      refine ⟨.item payload, [x], rest, rfl, rfl, ?_, nofun, nofun⟩
      rw [List.filterMap_cons_some hpayload]
      rfl
    | none =>
      have hl' : ¬e.Lags (o.position + 1) := fun h => hl (by rw [Lags] at h ⊢; omega)
      have hrest' : e.events.toList.drop (o.position + 1) = rest := by
        rw [← List.tail_drop, hrest]
        rfl
      simp only [List.length_cons] at hfuel
      obtain ⟨fuel, rfl⟩ : ∃ n, fuel = n + 1 := ⟨fuel - 1, by omega⟩
      obtain ⟨reading, passed, later, rfl, hadvance, hitems, hne, hwaiting⟩ :=
        ih (o := { o with position := o.position + 1 }) hl' hrest' fuel (by omega)
      refine ⟨reading, x :: passed, later, rfl, ?_, ?_, hne, hwaiting⟩
      · rw [hadvance, List.length_cons, Nat.add_assoc, Nat.add_comm 1]
      · rw [List.filterMap_cons_none hpayload]
        exact hitems

end Observer

namespace Engine

variable {σ : Type} {env : Environment σ} {drift : σ → σ → Prop} {e e' : Engine σ}

/-! ## Runs in which an observer misses nothing -/

/-- The runs from a state on in which an observer of a method is asked now and then and is never lagged,
with the deliveries that are made in them and what the observer has returned. -/
inductive Watches (env : Environment σ) (drift : σ → σ → Prop) (method : String) (start : Engine σ) :
    List Event → List Json → Observer → Engine σ → Prop
  | start : Watches env drift method start [] [] (.start start method) start
  | step {ds : List Event} {ys : List Json} {o : Observer} {e e' : Engine σ} :
    Watches env drift method start ds ys o e → Step env drift e e' →
      Watches env drift method start (ds ++ news e e') ys o e'
  /-- The observer is asked for its next result. -/
  | ask {ds : List Event} {ys : List Json} {o : Observer} {e : Engine σ} :
    Watches env drift method start ds ys o e →
    (o.cancelled = false → e.cancelled = false → ¬e.Lags o.position) →
      Watches env drift method start ds (ys ++ (o.next e).1.items) (o.next e).2.1 (o.next e).2.2
  | cancel {ds : List Event} {ys : List Json} {o : Observer} {e : Engine σ} :
    Watches env drift method start ds ys o e →
      Watches env drift method start ds ys { o with cancelled := true } e

theorem Watches.steps {method : String} {start : Engine σ} {ds : List Event} {ys : List Json}
    {o : Observer} (h : Watches env drift method start ds ys o e) (hs : Steps env drift e e') :
    ∃ ds', Watches env drift method start ds' ys o e' := by
  induction hs with
  | refl => exact ⟨ds, h⟩
  | tail _ hs ih =>
    obtain ⟨ds', h⟩ := ih
    exact ⟨_, h.step hs⟩

/-- What the next question comes to, if the observer has not ended and does not lag: `rest` is what it
has not passed. -/
theorem next_of_live {o : Observer} {rest : List Event} (hlive : o.cancelled = false)
    (hc : e.cancelled = false) (hl : ¬e.Lags o.position)
    (hrest : e.events.toList.drop o.position = rest) :
    ∃ reading passed later, rest = passed ++ later ∧
      o.next e = (reading, { o with position := o.position + passed.length }, e) ∧
      passed.filterMap (Event.payload? o.method) = reading.items ∧ reading ≠ .ended ∧
      (reading = .waiting → later = []) := by
  have hended : ¬(o.cancelled || e.cancelled) = true := by simp [hlive, hc]
  have hfuel : rest.length < e.events.size + 2 := by
    rw [← hrest, List.length_drop, Array.length_toList]
    omega
  rw [Observer.next, if_neg hended]
  exact Observer.advance_of_not_lags hl hrest hfuel

theorem next_of_ended {o : Observer} (h : o.cancelled = true ∨ e.cancelled = true) :
    o.next e = (.ended, o, e) := by
  rw [Observer.next, if_pos (by rwa [Bool.or_eq_true])]

/-- How far an observer has come that was made when the bus had carried the events of `start`. -/
structure Follows (method : String) (start : Engine σ) (ds handled : List Event) (ys : List Json)
    (o : Observer) (e : Engine σ) : Prop where
  order : handled <+: ds
  events : e.events.toList = start.events.toList ++ ds
  wants : o.method = method
  position : o.position = start.events.size + handled.length
  payloads : ys = handled.filterMap (Event.payload? method)

/-- What the bus has for the observer still. -/
theorem Follows.rest {method : String} {start : Engine σ} {ds handled : List Event} {ys : List Json}
    {o : Observer} (h : Follows method start ds handled ys o e) :
    e.events.toList.drop o.position = ds.drop handled.length := by
  rw [h.events, h.position, ← Array.length_toList, List.drop_length_add_append]

theorem Watches.follows {method : String} {start : Engine σ} {ds : List Event} {ys : List Json}
    {o : Observer} (h : Watches env drift method start ds ys o e) :
    ∃ handled, Follows method start ds handled ys o e := by
  induction h with
  | start => exact ⟨[], List.nil_prefix, (List.append_nil _).symm, rfl, rfl, rfl⟩
  | step _ hs ih =>
    obtain ⟨handled, h⟩ := ih
    refine ⟨handled, h.order.trans (List.prefix_append _ _), ?_, h.wants, h.position, h.payloads⟩
    rw [hs.events_eq, h.events, List.append_assoc]
  | @ask ds ys o e _ hl ih =>
    obtain ⟨handled, h⟩ := ih
    by_cases hended : o.cancelled = true ∨ e.cancelled = true
    · rw [next_of_ended hended]
      exact ⟨handled, h.order, h.events, h.wants, h.position, (List.append_nil _).trans h.payloads⟩
    · rw [not_or, Bool.not_eq_true, Bool.not_eq_true] at hended
      obtain ⟨reading, passed, later, hrest, hnext, hitems, -⟩ :=
        next_of_live hended.1 hended.2 (hl hended.1 hended.2) h.rest
      rw [hnext]
      refine ⟨handled ++ passed, ⟨later, ?_⟩, h.events, h.wants, ?_, ?_⟩
      · rw [List.append_assoc, ← hrest]
        exact List.prefix_iff_eq_append.1 h.order
      · rw [List.length_append, ← Nat.add_assoc, ← h.position]
      · rw [List.filterMap_append, ← h.payloads, ← hitems, h.wants]
  | cancel _ ih =>
    obtain ⟨handled, h⟩ := ih
    exact ⟨handled, h.order, h.events, h.wants, h.position, h.payloads⟩

/-! ## What an observer sees -/

/-- What an observer of a method has returned when the deliveries `ds` have been made since it was made
and it has passed those that are `handled`. -/
structure Sees (method : String) (start : Engine σ) (ds handled : List Event) (ys : List Json)
    (o : Observer) (e : Engine σ) : Prop where
  /-- It passes the deliveries in their order and leaves none out. -/
  order : handled <+: ds
  position : o.position = start.events.size + handled.length
  /-- It has returned the successes among what a subscriber to the method would have been called with. -/
  payloads : ys = (handled.filterMap (Event.call? method)).filterMap Except.toOption
  /-- Until it ends it returns the next success, and it waits only if there is none. -/
  next : o.cancelled = false → e.cancelled = false → ¬e.Lags o.position →
    (o.next e).1 =
      match ((ds.drop handled.length).filterMap (Event.call? method)).filterMap Except.toOption with
      | [] => .waiting
      | payload :: _ => .item payload
  /-- Once it is cancelled, or the engine is told to stop, it returns nothing any more. -/
  ended : o.cancelled = true ∨ e.cancelled = true → o.next e = (.ended, o, e)

/-- **An observer yields the payloads of its method**, as long as it is not lagged. -/
theorem Watches.sees {method : String} {start : Engine σ} {ds : List Event} {ys : List Json}
    {o : Observer} (h : Watches env drift method start ds ys o e) :
    ∃ handled, Sees method start ds handled ys o e := by
  obtain ⟨handled, h⟩ := h.follows
  refine ⟨handled, h.order, h.position, ?_, fun hlive hc hl => ?_, next_of_ended⟩
  · rw [Event.filterMap_payload?]
    exact h.payloads
  · obtain ⟨reading, passed, later, hrest, hnext, hitems, hne, hwaiting⟩ :=
      next_of_live hlive hc hl h.rest
    rw [h.wants] at hitems
    rw [Event.filterMap_payload?, hrest, List.filterMap_append, hitems, hnext]
    cases reading with
    | item payload => rfl
    | waiting =>
      rw [hwaiting rfl]
      rfl
    | ended => exact absurd rfl hne

end Engine
end RpcFlow
