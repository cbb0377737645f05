import RpcFlow.Proofs.Engine.Agreement
import RpcFlow.Proofs.Engine.Exhaustion

/-!
# What subscribers hear

A verdict that is delivered to a task becomes an event on the bus, and subscribers read the bus one event
at a time, each at its own pace.  A subscriber that is never so late that the bus has dropped what it
comes to next is called with the deliveries of its method, in their order and once each, from the time it
was added until it ends.

* `Engine.news` — the deliveries that a step makes, told by what tasks were delivered;
  `Engine.Step.events_eq` — the bus carries them and nothing else.
* `Engine.Step.subscriber` — what a step does to a subscriber; `Engine.readOn` — what reading comes to.
* `Engine.Attends` — runs in which a subscriber is never lagged; `Engine.Attends.keeps` is the invariant.
* `Engine.Hears`, `Engine.Attends.hears` — **a subscriber hears the deliveries of its method**.
-/

set_option autoImplicit false

namespace RpcFlow

/-- What a subscriber is called with; a mere choice of way is passed over. -/
def Verdict.call? : Verdict → Option (Except CallError Json)
  | route _ => none
  | success payload _ _ => some (.ok payload)
  | failure error _ => some (.error error)

theorem Verdict.call?_eq (v : Verdict) : v.call? = if v.isRoute then none else some v.result := by
  cases v <;> rfl

/-- What an event comes to for a subscriber to a method. -/
def Event.call? (method : String) (x : Event) : Option (Except CallError Json) :=
  if x.method = method then x.verdict.call? else none

theorem Event.call?_eq (x : Event) (method : String) :
    x.call? method =
      if (x.method == method && !x.verdict.isRoute) = true then some x.verdict.result else none := by
  rw [call?, Verdict.call?_eq]
  by_cases hm : x.method = method
  · cases x.verdict.isRoute <;> simp [hm]
  · simp [hm]

/-- A subscriber after it has come to an event and has moved on to a position. -/
def Subscriber.after (s : Subscriber) (now : Moment) (position : Nat) (x : Event) : Subscriber :=
  match x.call? s.method with
  | some result =>
    { s with position, heard := s.heard ++ [(now, result)], cancelled := s.cancelled || s.once }
  | none => { s with position }

namespace Subscriber

variable {s : Subscriber} {now : Moment} {position : Nat} {x : Event}

theorem after_of_call {result : Except CallError Json} (h : x.call? s.method = some result) :
    s.after now position x =
      { s with position, heard := s.heard ++ [(now, result)], cancelled := s.cancelled || s.once } := by
  rw [after, h]

theorem after_of_none (h : x.call? s.method = none) : s.after now position x = { s with position } := by
  rw [after, h]

/-- A subscriber that ends by an event was called and wants no more. -/
theorem of_after_cancelled (hlive : s.cancelled = false)
    (h : (s.after now position x).cancelled = true) :
    s.once = true ∧ (s.after now position x).heard ≠ [] := by
  cases hcall : x.call? s.method with
  | some result =>
    rw [after_of_call hcall] at h ⊢
    rw [hlive, Bool.false_or] at h
    exact ⟨h, List.append_ne_nil_of_right_ne_nil s.heard (List.cons_ne_nil _ [])⟩
  | none =>
    rw [after_of_none hcall, hlive] at h
    cases h

end Subscriber

namespace Engine

variable {σ : Type} {env : Environment σ} {drift : σ → σ → Prop} {window : Duration} {retries : Nat}
  {e e' : Engine σ}

/-! ## The deliveries of a run -/

/-- The verdicts that were delivered to a task. -/
def deliveredTo (e : Engine σ) (i : Nat) : List Verdict :=
  (e.tasks[i]?.map fun t => t.delivered.items).getD []

/-- The deliveries that a step makes, as events: the verdicts that it adds to those that were delivered
to each task. -/
def news (e e' : Engine σ) : List Event :=
  (List.range e'.tasks.size).flatMap fun i =>
    match e'.tasks[i]? with
    | none => []
    | some t => (t.delivered.items.drop (e.deliveredTo i).length).map t.event

theorem news_eq_nil (h : ∀ (i : Nat) (t : Task), e'.tasks[i]? = some t →
    t.delivered.items = e.deliveredTo i) : news e e' = [] := by
  refine List.flatMap_eq_nil_iff.2 fun i _ => ?_
  split
  · rfl
  · rename_i t ht
    rw [h i t ht, List.drop_length, List.map_nil]

/-- Only one entry of a table counts if the others are empty. -/
theorem flatMap_range_eq {β : Type} {f : Nat → List β} {i n : Nat} (hi : i < n)
    (h : ∀ j, j ≠ i → f j = []) : (List.range n).flatMap f = f i := by
  induction n with
  | zero => exact absurd hi (Nat.not_lt_zero i)
  | succ n ih =>
    rw [List.range_succ, List.flatMap_append, List.flatMap_singleton]
    rcases Nat.lt_succ_iff_lt_or_eq.1 hi with hlt | rfl
    · rw [ih hlt, h n (Nat.ne_of_gt hlt), List.append_nil]
    · have hbefore : (List.range i).flatMap f = [] :=
        List.flatMap_eq_nil_iff.2 fun j hj => h j (Nat.ne_of_lt (List.mem_range.1 hj))
      rw [hbefore, List.nil_append]

/-- The first delivery to a task is news. -/
theorem news_deliver {i : Nat} {t : Task} {v : Verdict} (ht : e.tasks[i]? = some t)
    (hfirst : (t.deliver v).2 = true) (htasks : e'.tasks = e.tasks.modify i fun _ => (t.deliver v).1) :
    news e e' = [t.event v] := by
  obtain ⟨hopen, hnone⟩ := Task.of_deliver_first hfirst
  have hi : i < e'.tasks.size := by
    rw [htasks, Array.size_modify]
    exact (Array.getElem?_eq_some_iff.1 ht).1
  rw [news, flatMap_range_eq hi]
  · have ht' : e'.tasks[i]? = some (t.deliver v).1 := by
      rw [htasks, Array.getElem?_modify, if_pos rfl, ht]
      rfl
    have htaken : (t.deliver v).1.delivered.items = [v] := by
      rw [Task.items_deliver hopen, if_pos hnone]
    have hbefore : e.deliveredTo i = [] := by
      rw [deliveredTo, ht]
      exact hnone
    rw [ht', hbefore]
    simp only [htaken, (Task.Grows.deliver t v).event]
    rfl
  · intro j hj
    rw [htasks, Array.getElem?_modify, if_neg (Ne.symm hj)]
    split
    · rfl
    · rename_i u hu
      rw [deliveredTo, hu, Option.map_some, Option.getD_some, List.drop_length, List.map_nil]

/-- **The bus carries the deliveries, and nothing else.** -/
theorem Step.events_eq (hs : Step env drift e e') :
    e'.events.toList = e.events.toList ++ news e e' := by
  have hquiet : e'.events = e.events → (∀ (i : Nat) (t : Task), e'.tasks[i]? = some t →
      t.delivered.items = e.deliveredTo i) → e'.events.toList = e.events.toList ++ news e e' := by
    intro hevents hitems
    rw [hevents, news_eq_nil hitems, List.append_nil]
  have hsame : e'.events = e.events → e'.tasks = e.tasks →
      e'.events.toList = e.events.toList ++ news e e' := by
    intro hevents htasks
    refine hquiet hevents fun i t ht => ?_
    rw [deliveredTo, ← htasks, ht]
    rfl
  cases hs.deliveries with
  | none h =>
    refine hquiet h.events fun i t' ht' => ?_
    obtain ⟨t, ht, -⟩ := hs.grows.back h.size ht'
    rw [deliveredTo, ht]
    exact h.items i t t' ht ht'
  | create d hevents _ htasks =>
    refine hquiet hevents fun i t ht => ?_
    rw [htasks, Array.getElem?_push] at ht
    rw [deliveredTo]
    split at ht
    · rename_i hi
      rw [hi, Array.getElem?_eq_none (Nat.le_refl _)]
      cases ht
      rfl
    · rw [ht]
      rfl
  | deliver index x p v k _ _ heq =>
    cases ht : e.tasks[p.task]? with
    | none =>
      have hnone := deliver_of_none ht v
      exact hsame (by rw [heq, instruct, hnone]; rfl) (by rw [heq, instruct, hnone]; rfl)
    | some t =>
      cases hfirst : (t.deliver v).2 with
      | false =>
        have hlater := deliver_of_later ht hfirst
        exact hsame (by rw [heq, instruct, hlater]; rfl) (by rw [heq, instruct, hlater]; rfl)
      | true =>
        have hdeliver := deliver_of_first ht hfirst
        have hevents : e'.events.toList = e.events.toList ++ [t.event v] := by
          rw [heq, instruct, hdeliver]
          exact Array.toList_push
        rw [hevents, news_deliver ht hfirst]
        rw [heq, instruct, hdeliver]
        rfl

/-- In every run of the built-in stages the bus carries successes and failures only. -/
theorem Reachable.isRoute_of_mem_events (he : Reachable env drift (Stages.block window retries) e) :
    ∀ x ∈ e.events.toList, x.verdict.isRoute = false := by
  induction he with
  | start world => exact fun x hx => absurd hx List.not_mem_nil
  | @step e e' he hs ih =>
    intro x hx
    rw [hs.events_eq, List.mem_append] at hx
    rcases hx with hx | hx
    · exact ih x hx
    · obtain ⟨i, -, hx⟩ := List.mem_flatMap.1 hx
      split at hx
      · exact absurd hx List.not_mem_nil
      · rename_i t ht
        obtain ⟨v, hv, rfl⟩ := List.mem_map.1 hx
        rcases (he.step hs).posted.once i t ht with hnil | ⟨w, hw, hroute⟩
        · rw [hnil] at hv
          simp at hv
        · have hvw : v = w := List.mem_singleton.1 (hw ▸ List.mem_of_mem_drop hv)
          exact hvw ▸ hroute

/-! ## What a step does to a subscriber -/

/-- The bus has dropped the event at a position. -/
def Lags (e : Engine σ) (position : Nat) : Prop := position + busCapacity < e.events.size

theorem receive_of_not_lags {position : Nat} (h : ¬e.Lags position) :
    e.receive position =
      match e.events[position]? with
      | some x => (.event x, position + 1)
      | none => (.nothing, position) := by
  rw [Lags] at h
  have hkept : ¬position < e.events.size - busCapacity := by omega
  cases hx : e.events[position]? <;> simp only [receive, if_neg hkept, hx]

theorem subscribers_updateSubscriber (e : Engine σ) (index i : Nat) (f : Subscriber → Subscriber) :
    (e.updateSubscriber index f).subscribers[i]? =
      if index = i then e.subscribers[i]?.map f else e.subscribers[i]? :=
  Array.getElem?_modify

/-- A subscriber after it has read the bus. -/
def readOn (e : Engine σ) (s : Subscriber) : Subscriber :=
  if s.cancelled || e.cancelled then s
  else
    match e.receive s.position with
    | (.event x, position) => s.after e.now position x
    | (_, position) => { s with position }

theorem readOn_of_ended {s : Subscriber} (h : (s.cancelled || e.cancelled) = true) : e.readOn s = s := by
  rw [readOn, if_pos h]

theorem readOn_of_not_ended {s : Subscriber} (h : ¬(s.cancelled || e.cancelled) = true) :
    e.readOn s =
      match e.receive s.position with
      | (.event x, position) => s.after e.now position x
      | (_, position) => { s with position } := by
  rw [readOn, if_neg h]

/-- A subscriber that has not ended and does not lag comes to the next event, if there is one. -/
theorem readOn_of_live {s : Subscriber} (hlive : s.cancelled = false) (hc : e.cancelled = false)
    (hl : ¬e.Lags s.position) :
    e.readOn s = match e.events[s.position]? with
      | some x => s.after e.now (s.position + 1) x
      | none => s := by
  have hrunning : ¬(s.cancelled || e.cancelled) = true := by simp [hlive, hc]
  rw [readOn_of_not_ended hrunning, receive_of_not_lags hl]
  cases e.events[s.position]? <;> rfl

/-- A subscriber that reads moves on; to the others it is of no concern. -/
theorem subscribers_readBus (e : Engine σ) (i : Nat) :
    (e.readBus i).subscribers = e.subscribers.modify i e.readOn := by
  cases hs : e.subscribers[i]? with
  | none =>
    have hread : e.readBus i = e := by simp only [readBus, hs]
    rw [hread, modify_eq_self fun s hs' => by rw [hs] at hs'; cases hs']
  | some s =>
    have hmoved : ∀ f, f s = e.readOn s → e.subscribers.modify i f = e.subscribers.modify i e.readOn :=
      fun f => modify_congr hs
    by_cases hended : (s.cancelled || e.cancelled) = true
    · have hread : e.readBus i = e := by simp only [readBus, hs, if_pos hended]
      have hself : ∀ s', e.subscribers[i]? = some s' → e.readOn s' = s' := by
        intro s' hs'
        rw [hs] at hs'
        cases hs'
        exact readOn_of_ended hended
      rw [hread, modify_eq_self hself]
    · have hon := readOn_of_not_ended hended
      simp only [readBus, hs, if_neg hended]
      generalize e.receive s.position = r at hon ⊢
      obtain ⟨received, position⟩ := r
      cases received with
      | nothing => exact hmoved (fun s => { s with position }) hon.symm
      | lagged skipped => exact hmoved (fun s => { s with position }) hon.symm
      | event x =>
        have hcalled :
            ((e.updateSubscriber i fun s => { s with position }).hear i x.verdict.result).subscribers =
              e.subscribers.modify i fun s =>
                { s with
                  position
                  heard := s.heard ++ [(e.now, x.verdict.result)]
                  cancelled := s.cancelled || s.once } := by
          simp only [hear, updateSubscriber, modify_modify]
        simp only at hon ⊢
        split
        · rename_i hheard
          rw [Subscriber.after_of_call (by rw [Event.call?_eq, if_pos hheard])] at hon
          exact hcalled.trans (hmoved _ (by rw [hon]))
        · rename_i hpassed
          rw [Subscriber.after_of_none (by rw [Event.call?_eq, if_neg hpassed])] at hon
          exact hmoved (fun s => { s with position }) hon.symm

theorem getElem?_readBus {i : Nat} {s : Subscriber} (hs : e.subscribers[i]? = some s) :
    (e.readBus i).subscribers[i]? = some (e.readOn s) := by
  rw [subscribers_readBus, Array.getElem?_modify, if_pos rfl, hs]
  rfl

theorem subscribers_unsubscribe {i : Nat} {s : Subscriber} (hs : e.subscribers[i]? = some s) :
    (e.unsubscribe i).subscribers[i]? = some { s with cancelled := true } := by
  have hupdate := subscribers_updateSubscriber e i i fun s => { s with cancelled := true }
  rw [if_pos rfl, hs] at hupdate
  exact hupdate

/-- A step leaves a subscriber alone, cancels it, or lets it read; it reads only while it has not
ended. -/
theorem Step.subscriber (hstep : Step env drift e e') {i : Nat} {s : Subscriber}
    (hs : e.subscribers[i]? = some s) :
    e'.subscribers[i]? = some s ∨ e' = e.unsubscribe i ∨
      (s.cancelled = false ∧ e.cancelled = false ∧ e' = e.readBus i) := by
  have hsame : e'.subscribers = e.subscribers → e'.subscribers[i]? = some s := fun h => by rw [h, hs]
  cases hstep with
  | submit d => exact .inl (hsame (by rw [submit_eq]))
  | shutdown => exact .inl (hsame (by rw [shutdown_eq]))
  | work c rest => exact .inl (hsame (by rw [handle_eq]))
  | stop => exact .inl (hsame (by rw [stopWorker_eq]))
  | take stage index rest => exact .inl (hsame (by rw [handOne_frame]; rfl))
  | closeWindow stage w => exact .inl (hsame (by rw [handWindow_eq]; rfl))
  | run index x r => exact .inl (hsame (by rw [instruct_eq]))
  | rescue index x ending error p => exact .inl (hsame (by rw [complete_eq]))
  | subscribe method once =>
    have hi : i < e.subscribers.size := (Array.getElem?_eq_some_iff.1 hs).1
    have hpush : (e.subscribers.push ⟨method, once, e.events.size, false, []⟩)[i]? = some s := by
      rw [Array.getElem?_push_lt hi, ← hs, Array.getElem?_eq_getElem hi]
    exact .inl hpush
  | unsubscribe index =>
    by_cases hindex : index = i
    · exact .inr (.inl (hindex ▸ rfl))
    · have hupdate := subscribers_updateSubscriber e index i fun s => { s with cancelled := true }
      rw [if_neg hindex, hs] at hupdate
      exact .inl hupdate
  | read index =>
    by_cases hindex : index = i
    · subst hindex
      by_cases hended : s.cancelled = false ∧ e.cancelled = false
      · exact .inr (.inr ⟨hended.1, hended.2, rfl⟩)
      · have hread : e.readBus index = e := by
          refine readBus_eq_self fun s' hs' hlive hc => ?_
          rw [hs] at hs'
          cases hs'
          exact absurd ⟨hlive, hc⟩ hended
        exact .inl (hread.symm ▸ hs)
    · have hread := subscribers_readBus e index
      rw [hread, Array.getElem?_modify, if_neg hindex]
      exact .inl hs
  | _ => exact .inl (hsame rfl)

/-! ## Runs in which a subscriber misses nothing -/

/-- In the step from `e` to `e'` a subscriber reads on behind events that the bus has dropped. -/
def Misses (e e' : Engine σ) (i : Nat) : Prop :=
  e' = e.readBus i ∧ ∃ s, e.subscribers[i]? = some s ∧ s.cancelled = false ∧ e.cancelled = false ∧
    e.Lags s.position

/-- The runs from a state on in which a subscriber is never lagged, with the deliveries that are made in
them. -/
inductive Attends (env : Environment σ) (drift : σ → σ → Prop) (i : Nat) (start : Engine σ) :
    List Event → Engine σ → Prop
  | start : Attends env drift i start [] start
  | step {ds : List Event} {e e' : Engine σ} : Attends env drift i start ds e →
    Step env drift e e' → ¬Misses e e' i → Attends env drift i start (ds ++ news e e') e'

/-- How far a subscriber has come that was added when the bus had carried `start` events: it has come to
the events `handled`. -/
structure Keeps (method : String) (once : Bool) (start : Nat) (handled : List Event) (s : Subscriber) :
    Prop where
  wants : s.method = method ∧ s.once = once
  position : s.position = start + handled.length
  calls : s.heard.map Prod.snd = handled.filterMap (Event.call? method)
  first : once = true → s.heard ≠ [] → s.cancelled = true ∧ s.heard.length = 1

section

variable {method : String} {once : Bool} {start : Nat} {handled : List Event} {s : Subscriber}

theorem Keeps.cancel (h : Keeps method once start handled s) :
    Keeps method once start handled { s with cancelled := true } :=
  ⟨h.wants, h.position, h.calls, fun ho hne => ⟨rfl, (h.first ho hne).2⟩⟩

/-- A subscriber that has not ended comes to one more event. -/
theorem Keeps.after (h : Keeps method once start handled s) (hlive : s.cancelled = false) (now : Moment)
    (x : Event) : Keeps method once start (handled ++ [x]) (s.after now (s.position + 1) x) := by
  have hposition : s.position + 1 = start + (handled ++ [x]).length := by
    rw [h.position, List.length_append]
    rfl
  cases hcall : x.call? method with
  | none =>
    rw [Subscriber.after_of_none (h.wants.1.symm ▸ hcall)]
    refine ⟨h.wants, hposition, ?_, h.first⟩
    rw [List.filterMap_append, List.filterMap_cons_none hcall, List.filterMap_nil, List.append_nil]
    exact h.calls
  | some result =>
    rw [Subscriber.after_of_call (h.wants.1.symm ▸ hcall)]
    refine ⟨h.wants, hposition, ?_, fun ho _ => ?_⟩
    · rw [List.filterMap_append, List.filterMap_cons_some hcall, List.filterMap_nil, List.map_append,
        h.calls]
      rfl
    · -- it was live, so this is the first call
      have hnone : s.heard = [] := by
        by_contra hne
        rw [(h.first ho hne).1] at hlive
        cases hlive
      rw [hlive, h.wants.2, ho, hnone]
      exact ⟨rfl, rfl⟩

end

theorem Attends.steps {i : Nat} {start : Engine σ} {ds : List Event}
    (h : Attends env drift i start ds e) : Steps env drift start e := by
  induction h with
  | start => exact .refl
  | step _ hs _ ih => exact ih.tail hs

/-- The bus carries the deliveries of a run. -/
theorem Attends.events_eq {i : Nat} {start : Engine σ} {ds : List Event}
    (h : Attends env drift i start ds e) : e.events.toList = start.events.toList ++ ds := by
  induction h with
  | start => exact (List.append_nil _).symm
  | step _ hs _ ih => rw [hs.events_eq, ih, List.append_assoc]

/-- Nobody is lagged in a run in which the bus drops nothing. -/
theorem Attends.of_steps {i : Nat} {start : Engine σ} (h : Steps env drift start e)
    (hsize : e.events.size ≤ busCapacity) : ∃ ds, Attends env drift i start ds e := by
  induction h with
  | refl => exact ⟨[], .start⟩
  | @tail e e' _ hs ih =>
    have hgrows : e.events.size ≤ e'.events.size := by
      rw [← Array.length_toList, ← Array.length_toList, hs.events_eq, List.length_append]
      exact Nat.le_add_right _ _
    obtain ⟨ds, h⟩ := ih (Nat.le_trans hgrows hsize)
    refine ⟨ds ++ news e e', h.step hs ?_⟩
    rintro ⟨-, s, -, -, -, hl⟩
    rw [Lags] at hl
    omega

/-- What comes next on a bus. -/
theorem getElem?_events {before : Array Event} {handled rest : List Event}
    (h : e.events.toList = before.toList ++ (handled ++ rest)) :
    e.events[before.size + handled.length]? = rest.head? := by
  have hlength : (before.toList ++ handled).length = before.size + handled.length := by
    rw [List.length_append, Array.length_toList]
  rw [← Array.getElem?_toList, h, ← List.append_assoc,
    List.getElem?_append_right (Nat.le_of_eq hlength), hlength, Nat.sub_self, List.head?_eq_getElem?]

/-- A subscriber that was there at the start of a run was unsubscribed in it. -/
def Leaves (env : Environment σ) (drift : σ → σ → Prop) (i : Nat) (start e : Engine σ) : Prop :=
  ∃ a, Steps env drift start a ∧ Steps env drift (a.unsubscribe i) e

theorem Attends.keeps {e₀ : Engine σ} {method : String} {once : Bool} {ds : List Event}
    (h : Attends env drift e₀.subscribers.size (e₀.subscribe method once).2 ds e) :
    ∃ s handled rest, e.subscribers[e₀.subscribers.size]? = some s ∧ ds = handled ++ rest ∧
      Keeps method once e₀.events.size handled s ∧
      (s.cancelled = true → (once = true ∧ s.heard ≠ []) ∨
        Leaves env drift e₀.subscribers.size (e₀.subscribe method once).2 e) := by
  induction h with
  | start =>
    refine ⟨⟨method, once, e₀.events.size, false, []⟩, [], [], ?_, rfl, ⟨⟨rfl, rfl⟩, rfl, rfl, ?_⟩, ?_⟩
    · exact Array.getElem?_push_size
    · exact fun _ hne => absurd rfl hne
    · exact fun hc => Bool.noConfusion hc
  | @step ds e e' h hs hmiss ih =>
    obtain ⟨s, handled, rest, hsub, rfl, hkeeps, hends⟩ := ih
    have hlater : handled ++ rest ++ news e e' = handled ++ (rest ++ news e e') := List.append_assoc ..
    have hleaves : Leaves env drift e₀.subscribers.size (e₀.subscribe method once).2 e →
        Leaves env drift e₀.subscribers.size (e₀.subscribe method once).2 e' :=
      fun ⟨a, hbefore, hafter⟩ => ⟨a, hbefore, hafter.tail hs⟩
    rcases hs.subscriber hsub with hsame | hcancelled | ⟨hlive, hc, hread⟩
    · exact ⟨s, handled, _, hsame, hlater, hkeeps, fun hc => (hends hc).imp id hleaves⟩
    · refine ⟨{ s with cancelled := true }, handled, _, ?_, hlater, hkeeps.cancel, fun _ => ?_⟩
      · rw [hcancelled]
        exact subscribers_unsubscribe hsub
      · exact .inr ⟨e, h.steps, hcancelled ▸ .refl⟩
    · have hl : ¬e.Lags s.position := fun hl => hmiss ⟨hread, s, hsub, hlive, hc, hl⟩
      have hnext : e.events[s.position]? = rest.head? := by
        rw [hkeeps.position]
        exact getElem?_events h.events_eq
      have hsub' := getElem?_readBus hsub
      rw [← hread, readOn_of_live hlive hc hl, hnext] at hsub'
      cases rest with
      | nil => exact ⟨s, handled, _, hsub', hlater, hkeeps, fun hc => (hends hc).imp id hleaves⟩
      | cons x rest =>
        refine ⟨s.after e.now (s.position + 1) x, handled ++ [x], rest ++ news e e', hsub', ?_,
          hkeeps.after hlive e.now x, fun hc => ?_⟩
        · rw [hlater, List.append_assoc]
          rfl
        · exact .inl (hkeeps.wants.2 ▸ Subscriber.of_after_cancelled hlive hc)

/-- A subscriber stays where it is, and once it is cancelled it stays so. -/
theorem Steps.subscriber (h : Steps env drift e e') {i : Nat} {s : Subscriber}
    (hs : e.subscribers[i]? = some s) :
    ∃ s', e'.subscribers[i]? = some s' ∧ (s.cancelled = true → s'.cancelled = true) := by
  induction h with
  | refl => exact ⟨s, hs, id⟩
  | @tail e e' _ hstep ih =>
    obtain ⟨s', hs', hkept⟩ := ih
    rcases hstep.subscriber hs' with hsame | hcancelled | ⟨hlive, -, hread⟩
    · exact ⟨s', hsame, hkept⟩
    · exact ⟨{ s' with cancelled := true }, hcancelled ▸ subscribers_unsubscribe hs', fun _ => rfl⟩
    · refine ⟨e.readOn s', hread ▸ getElem?_readBus hs', fun hc => ?_⟩
      rw [hkept hc] at hlive
      cases hlive

theorem Leaves.cancelled {i : Nat} {start : Engine σ} {s₀ s : Subscriber} (h : Leaves env drift i start e)
    (hs₀ : start.subscribers[i]? = some s₀) (hs : e.subscribers[i]? = some s) : s.cancelled = true := by
  obtain ⟨a, hbefore, hafter⟩ := h
  obtain ⟨s₁, hs₁, -⟩ := hbefore.subscriber hs₀
  obtain ⟨s₂, hs₂, hkept⟩ := hafter.subscriber (subscribers_unsubscribe hs₁)
  obtain rfl : s = s₂ := Option.some.inj (hs.symm.trans hs₂)
  exact hkept rfl

/-- A subscriber that has ended, or whose engine was told to stop, hears nothing any more. -/
theorem Steps.heard_of_ended (h : Steps env drift e e') {i : Nat} {s : Subscriber}
    (hs : e.subscribers[i]? = some s) (hended : s.cancelled = true ∨ e.cancelled = true) :
    ∃ s', e'.subscribers[i]? = some s' ∧ s'.heard = s.heard ∧
      (s'.cancelled = true ∨ e'.cancelled = true) := by
  induction h with
  | refl => exact ⟨s, hs, rfl, hended⟩
  | @tail e e' _ hstep ih =>
    obtain ⟨s', hs', hheard, hended'⟩ := ih
    rcases hstep.subscriber hs' with hsame | hcancelled | ⟨hlive, hc, -⟩
    · refine ⟨s', hsame, hheard, hended'.imp id fun hc => ?_⟩
      by_contra hrunning
      rw [hstep.frame.2.1 (Bool.eq_false_of_not_eq_true hrunning)] at hc
      cases hc
    · refine ⟨{ s' with cancelled := true }, ?_, hheard, .inl rfl⟩
      rw [hcancelled]
      exact subscribers_unsubscribe hs'
    · rcases hended' with h | h
      · rw [hlive] at h
        cases h
      · rw [hc] at h
        cases h

/-! ## What a subscriber hears -/

/-- What a subscriber to a method has heard when the deliveries `ds` have been made since it was added
and it has come to those that are `handled`. -/
structure Hears (env : Environment σ) (drift : σ → σ → Prop) (method : String) (once : Bool)
    (start : Engine σ) (i : Nat) (ds handled : List Event) (e : Engine σ) (s : Subscriber) : Prop where
  subscriber : e.subscribers[i]? = some s
  wants : s.method = method ∧ s.once = once
  /-- It comes to the deliveries in their order and leaves none out. -/
  order : handled <+: ds
  position : s.position = start.events.size + handled.length
  /-- It was called once for each of them that is of its method. -/
  calls : s.heard.map Prod.snd = handled.filterMap (Event.call? method)
  /-- A subscriber that wants one result is called for the first one only, and has ended then. -/
  first : once = true → s.heard ≠ [] →
    s.cancelled = true ∧ s.heard.map Prod.snd = (ds.filterMap (Event.call? method)).take 1
  /-- It ends so or when it is unsubscribed, and not otherwise. -/
  ends : s.cancelled = true ↔ (once = true ∧ s.heard ≠ []) ∨ Leaves env drift i start e
  /-- Until it ends it comes to the next delivery when it reads. -/
  next : s.cancelled = false → e.cancelled = false → ¬e.Lags s.position →
    ∀ x rest, ds = handled ++ x :: rest → ∃ s', (e.readBus i).subscribers[i]? = some s' ∧
      s'.heard.map Prod.snd = (handled ++ [x]).filterMap (Event.call? method)
  /-- If it has not ended when nothing is left to do, it has come to all deliveries. -/
  all : s.cancelled = false → e.cancelled = false → Exhausted env e → handled = ds
  /-- Once it is unsubscribed, or the engine is told to stop, it is not called any more. -/
  ended : s.cancelled = true ∨ e.cancelled = true → ∀ e', Steps env drift e e' →
    ∃ s', e'.subscribers[i]? = some s' ∧ s'.heard = s.heard

/-- **A subscriber hears the deliveries of its method**, as long as it is not lagged. -/
theorem Attends.hears {e₀ : Engine σ} {method : String} {once : Bool} {ds : List Event}
    (h : Attends env drift e₀.subscribers.size (e₀.subscribe method once).2 ds e) :
    ∃ s handled, Hears env drift method once (e₀.subscribe method once).2 e₀.subscribers.size ds handled
      e s := by
  obtain ⟨s, handled, rest, hsub, rfl, hkeeps, hends⟩ := h.keeps
  have hnext : e.events[s.position]? = rest.head? := by
    rw [hkeeps.position]
    exact getElem?_events h.events_eq
  have hprefix : handled <+: handled ++ rest := List.prefix_append _ _
  refine ⟨s, handled, { subscriber := hsub, wants := hkeeps.wants, order := hprefix,
                        position := hkeeps.position, calls := hkeeps.calls, first := ?_,
                        ends := ⟨hends, ?_⟩, next := ?_, all := ?_, ended := ?_ }⟩
  · intro ho hne
    obtain ⟨hcancelled, hlength⟩ := hkeeps.first ho hne
    have hone : (handled.filterMap (Event.call? method)).length = 1 := by
      rw [← hkeeps.calls, List.length_map, hlength]
    rw [List.filterMap_append, List.take_append_of_le_length (Nat.le_of_eq hone.symm),
      List.take_of_length_le (Nat.le_of_eq hone)]
    exact ⟨hcancelled, hkeeps.calls⟩
  · rintro (⟨ho, hne⟩ | hleaves)
    · exact (hkeeps.first ho hne).1
    · exact hleaves.cancelled Array.getElem?_push_size hsub
  · intro hlive hc hl x later hds
    have hrest : rest = x :: later := List.append_cancel_left hds
    rw [hrest] at hnext
    have hsub' := getElem?_readBus hsub
    rw [readOn_of_live hlive hc hl, hnext] at hsub'
    exact ⟨_, hsub', (hkeeps.after hlive e.now x).calls⟩
  · intro hlive hc hex
    have hpassed : e.events.size ≤ s.position := by
      by_contra hlt
      exact hex.not_acts (.read e _ s hsub hlive hc (Nat.lt_of_not_le hlt))
    rw [Array.getElem?_eq_none hpassed] at hnext
    rw [List.head?_eq_none_iff.1 hnext.symm, List.append_nil]
  · intro hended e' hs
    obtain ⟨s', hs', hheard, -⟩ := hs.heard_of_ended hsub hended
    exact ⟨s', hs', hheard⟩

end Engine
end RpcFlow
