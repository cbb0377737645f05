import RpcFlow.Proofs.Engine.Finishing
import RpcFlow.Proofs.Engine.History

/-!
# Sharing tasks between calls

A call that is equivalent to a call under way joins its task if both allow it.  The worker looks for
such a task and registers new ones on one timeline, so there is never a choice: for each method and
key, at most one unfinished task can be joined.

* `Task.Serves` — a task that a request for a method and key may join.
* `Engine.Desk` — the invariant: the registry knows every unfinished task, no two of them serve the
  same calls, and each request that waits for its answer waits in a slot of its own.
* `Engine.Answered` — what can be said of a request at any later time.
* `Engine.Sharing`, `Engine.sharing` — **equivalent calls share one task, all others have their own**.
-/

set_option autoImplicit false

namespace RpcFlow

/-- An unfinished task that a request for this method and key may join. -/
structure Task.Serves (t : Task) (method cacheKey : String) : Prop where
  method : t.method = method
  cacheKey : t.descriptor.cacheKey = cacheKey
  bindable : t.descriptor.bindable = true
  unfinished : t.isFinished = false

namespace Task

theorem mayJoin_iff (t : Task) (method cacheKey : String) :
    t.mayJoin method cacheKey = true ↔ t.Serves method cacheKey := by
  simp only [mayJoin, Descriptor.responds, Bool.and_eq_true, Bool.not_eq_true', beq_iff_eq,
    Option.all_some]
  constructor
  · rintro ⟨⟨hb, hf⟩, hm, hk⟩
    exact ⟨hm, hk, hb, hf⟩
  · rintro ⟨hm, hk, hb, hf⟩
    exact ⟨⟨hb, hf⟩, hm, hk⟩

/-- Of several candidates one is chosen, whatever their verdicts. -/
theorem foldl_fewer_some {α : Type} (l : List (α × Task)) (b : α × Task) :
    ∃ c, l.foldl fewer (some b) = some c ∧ (c = b ∨ c ∈ l) := by
  induction l generalizing b with
  | nil => exact ⟨b, rfl, .inl rfl⟩
  | cons x l ih =>
    simp only [List.foldl_cons, fewer]
    split
    · obtain ⟨c, hc, h⟩ := ih x
      exact ⟨c, hc, .inr (h.elim (fun h => h ▸ List.mem_cons_self) (List.mem_cons_of_mem x))⟩
    · obtain ⟨c, hc, h⟩ := ih b
      exact ⟨c, hc, h.imp_right (List.mem_cons_of_mem x)⟩

theorem joinable?_eq_some {α : Type} {l : List (α × Task)} {method cacheKey : String}
    {x : α × Task} (h : joinable? l method cacheKey = some x) :
    x ∈ l ∧ x.2.Serves method cacheKey := by
  have hx : x ∈ l.filter fun x => x.2.mayJoin method cacheKey := by
    unfold joinable? at h
    cases hl : l.filter fun x => x.2.mayJoin method cacheKey with
    | nil => rw [hl] at h; exact absurd h (by simp)
    | cons y l' =>
      rw [hl] at h
      obtain ⟨c, hc, hmem⟩ := foldl_fewer_some l' y
      rw [List.foldl_cons, show fewer none y = some y from rfl, hc] at h
      cases h
      exact hmem.elim (fun h => h ▸ List.mem_cons_self) (List.mem_cons_of_mem y)
  rw [List.mem_filter, mayJoin_iff] at hx
  exact hx

theorem joinable?_eq_none {α : Type} {l : List (α × Task)} {method cacheKey : String}
    (h : joinable? l method cacheKey = none) :
    ∀ x ∈ l, ¬x.2.Serves method cacheKey := by
  intro x hx hs
  have hm : x ∈ l.filter fun x => x.2.mayJoin method cacheKey :=
    List.mem_filter.2 ⟨hx, (mayJoin_iff _ _ _).2 hs⟩
  unfold joinable? at h
  cases hl : l.filter fun x => x.2.mayJoin method cacheKey with
  | nil => rw [hl] at hm; exact absurd hm List.not_mem_nil
  | cons y l' =>
    obtain ⟨c, hc, -⟩ := foldl_fewer_some l' y
    rw [hl, List.foldl_cons, show fewer none y = some y from rfl, hc] at h
    exact absurd h (by simp)

end Task

/-- The slot in which a request is answered, if a command is a request. -/
def Command.slot? : Command → Option Nat
  | submit _ reply => some reply
  | transition .. => none

namespace Engine

variable {σ : Type} {env : Environment σ} {drift : σ → σ → Prop} {blocks : Stage → Block}
  {e e' : Engine σ}

/-! ## Requests turned away -/

/-- A request that is turned away is told so in its slot. -/
theorem replies_foldl_refuse (l : List Command) (e : Engine σ) (r : Nat) :
    (l.foldl refuse e).replies[r]? =
      if r ∈ l.filterMap Command.slot? then e.replies[r]?.map fun _ => .refused
      else e.replies[r]? := by
  induction l generalizing e with
  | nil => rfl
  | cons c l ih =>
    rw [List.foldl_cons, ih]
    cases c with
    | transition i source verdict => rfl
    | submit d s =>
      rw [List.filterMap_cons_some (show Command.slot? (.submit d s) = some s from rfl)]
      simp only [refuse, Array.getElem?_setIfInBounds, List.mem_cons]
      by_cases hsr : s = r
      · subst hsr
        by_cases hs : s < e.replies.size <;> simp [hs]
      · have hrs : r ≠ s := Ne.symm hsr
        simp only [hsr, hrs, if_false, false_or]

/-- A worker that stops turns away the requests that wait. -/
theorem replies_stopWorker (e : Engine σ) (r : Nat) :
    e.stopWorker.replies[r]? =
      if r ∈ e.inbox.filterMap Command.slot? then e.replies[r]?.map fun _ => .refused
      else e.replies[r]? := by
  have hclosed : e.stopWorker.replies =
      (e.inbox.foldl refuse ((e.registry.foldl (fun e i => e.updateTask i Task.close) e).report
        (.engineStopped (e.registry.foldl (fun e i => e.updateTask i Task.close) e).live))).replies := by
    simp only [stopWorker]
    rw [foldl_close_eq]
    rfl
  rw [hclosed, replies_foldl_refuse, foldl_close_eq]
  rfl

/-- Every slot that there was is still there. -/
theorem size_replies_stopWorker (e : Engine σ) : e.stopWorker.replies.size = e.replies.size := by
  have hnone : ∀ r : Nat, e.stopWorker.replies[r]? = none ↔ e.replies[r]? = none := by
    intro r
    rw [replies_stopWorker]
    split
    · rw [Option.map_eq_none_iff]
    · exact Iff.rfl
  simp only [Array.getElem?_eq_none_iff] at hnone
  have hle : e.stopWorker.replies.size ≤ e.replies.size := (hnone _).2 (Nat.le_refl e.replies.size)
  have hge : e.replies.size ≤ e.stopWorker.replies.size := (hnone _).1 (Nat.le_refl _)
  exact Nat.le_antisymm hle hge

/-! ## The invariant -/

/-- What the worker can rely on when it takes requests in. -/
structure Desk (e : Engine σ) : Prop where
  registered : ∀ (i : Nat) (t : Task), e.tasks[i]? = some t → t.isFinished = false →
    i ∈ e.registry
  unique : ∀ (i j : Nat) (t u : Task) (method cacheKey : String), e.tasks[i]? = some t →
    e.tasks[j]? = some u → t.Serves method cacheKey → u.Serves method cacheKey → i = j
  waiting : ∀ r ∈ e.inbox.filterMap Command.slot?, e.replies[r]? = some .waiting
  slots : (e.inbox.filterMap Command.slot?).Nodup
  answers : ∀ (r i : Nat), e.replies[r]? = some (.task i) → i < e.tasks.size
  alone : ∀ (r s i : Nat) (t : Task), e.tasks[i]? = some t → t.descriptor.bindable = false →
    e.replies[r]? = some (.task i) → e.replies[s]? = some (.task i) → r = s

theorem mem_unfinished {i : Nat} {t : Task} :
    (i, t) ∈ e.unfinished ↔ i ∈ e.registry ∧ e.tasks[i]? = some t := by
  simp only [unfinished, List.mem_filterMap, Option.map_eq_some_iff, Prod.mk.injEq]
  constructor
  · rintro ⟨j, hj, u, hu, rfl, rfl⟩
    exact ⟨hj, hu⟩
  · rintro ⟨hi, ht⟩
    exact ⟨i, hi, t, ht, rfl, rfl⟩

namespace Desk

theorem start (blocks : Stage → Block) (world : σ) : Desk (Engine.start blocks world) where
  registered := fun i t ht => by simp [Engine.start] at ht
  unique := fun i j t u _ _ ht => by simp [Engine.start] at ht
  waiting := fun r hr => by simp [Engine.start] at hr
  slots := List.nodup_nil
  answers := fun r i hr => by simp [Engine.start] at hr
  alone := fun r s i t ht => by simp [Engine.start] at ht

/-- Tasks may grow and finish, and requests may leave the inbox. -/
theorem of_grows (h : Desk e) (hg : Grows e e') (hsize : e'.tasks.size = e.tasks.size)
    (hreg : ∀ (i : Nat) (t' : Task), e'.tasks[i]? = some t' → t'.isFinished = false →
      i ∈ e.registry → i ∈ e'.registry)
    (hreplies : e'.replies = e.replies)
    (hinbox : (e'.inbox.filterMap Command.slot?).Sublist (e.inbox.filterMap Command.slot?)) :
    Desk e' := by
  have hserves : ∀ {t t' : Task} {method cacheKey : String}, t.Grows t' →
      t'.Serves method cacheKey → t.Serves method cacheKey := by
    intro t t' method cacheKey hg hs
    refine { method := ?_, cacheKey := ?_, bindable := ?_, unfinished := ?_ }
    · rw [← hs.method, Task.method, Task.method, hg.descriptor]
    · rw [← hs.cacheKey, hg.descriptor]
    · rw [← hs.bindable, hg.descriptor]
    · cases hf : t.isFinished with
      | false => rfl
      | true => exact (hg.finished hf).symm.trans hs.unfinished
  refine { registered := ?_, unique := ?_, waiting := ?_, slots := h.slots.sublist hinbox,
           answers := ?_, alone := ?_ }
  · intro i t' ht' hf
    obtain ⟨t, ht, hgt⟩ := hg.back hsize ht'
    refine hreg i t' ht' hf (h.registered i t ht ?_)
    cases hft : t.isFinished with
    | false => rfl
    | true => rw [hgt.finished hft] at hf; exact hf
  · intro i j t' u' method cacheKey ht' hu' hst hsu
    obtain ⟨t, ht, hgt⟩ := hg.back hsize ht'
    obtain ⟨u, hu, hgu⟩ := hg.back hsize hu'
    exact h.unique i j t u method cacheKey ht hu (hserves hgt hst) (hserves hgu hsu)
  · intro r hr
    rw [hreplies]
    exact h.waiting r (hinbox.subset hr)
  · intro r i hr
    rw [hsize]
    exact h.answers r i (hreplies ▸ hr)
  · intro r s i t' ht' hb hr hs
    obtain ⟨t, ht, hgt⟩ := hg.back hsize ht'
    rw [hreplies] at hr hs
    exact h.alone r s i t ht (hgt.descriptor ▸ hb) hr hs

theorem of_eq (h : Desk e) (tasks : e'.tasks = e.tasks) (registry : e'.registry = e.registry)
    (replies : e'.replies = e.replies) (inbox : e'.inbox = e.inbox) : Desk e' :=
  h.of_grows (.of_eq tasks) (by rw [tasks]) (fun _ _ _ _ hi => registry ▸ hi) replies
    (by rw [inbox])

/-! ## Taking requests in -/

/-- A request that may join a task joins the one task there is. -/
theorem accept_of_serves (h : Desk e) {d : Descriptor} (hb : d.bindable = true) {i : Nat}
    {t : Task} (ht : e.tasks[i]? = some t) (hs : t.Serves d.method d.cacheKey) :
    ∃ m, e.accept d = (i, e.report m) := by
  have hmem : (i, t) ∈ e.unfinished := mem_unfinished.2 ⟨h.registered i t ht hs.unfinished, ht⟩
  rcases accept_cases e d with ⟨j, u, -, hj, ha⟩ | ⟨hnone, -⟩
  · obtain ⟨hju, hsu⟩ := Task.joinable?_eq_some hj
    have hij := h.unique i j t u _ _ ht (mem_unfinished.1 hju).2 hs hsu
    exact ⟨_, hij ▸ ha⟩
  · exact absurd hs (Task.joinable?_eq_none (hnone hb) (i, t) hmem)

/-- Any other request gets a task of its own. -/
theorem accept_of_not_serves {d : Descriptor}
    (hn : d.bindable = true → ∀ (i : Nat) (t : Task), e.tasks[i]? = some t →
      ¬t.Serves d.method d.cacheKey) : e.accept d = e.create d := by
  rcases accept_cases e d with ⟨i, t, hb, hj, -⟩ | ⟨-, ha⟩
  · obtain ⟨hit, hs⟩ := Task.joinable?_eq_some hj
    exact absurd hs (hn hb i t (mem_unfinished.1 hit).2)
  · exact ha

/-- The answer is written into the slot. -/
theorem answer (h : Desk e) {r i : Nat} (hi : i < e.tasks.size) (hr : e.replies[r]? = some .waiting)
    (hni : r ∉ e.inbox.filterMap Command.slot?)
    (hn : ∀ t, e.tasks[i]? = some t → t.descriptor.bindable = false →
      ∀ s : Nat, e.replies[s]? ≠ some (.task i)) :
    Desk { e with replies := e.replies.setIfInBounds r (.task i) } := by
  have hlt : r < e.replies.size := (Array.getElem?_eq_some_iff.1 hr).1
  have hget : ∀ s : Nat, (e.replies.setIfInBounds r (.task i))[s]? =
      if r = s then some (.task i) else e.replies[s]? := by
    intro s
    rw [Array.getElem?_setIfInBounds]
    by_cases hs : r = s
    · rw [if_pos hs, if_pos hs, if_pos (hs ▸ hlt)]
    · rw [if_neg hs, if_neg hs]
  refine { registered := h.registered, unique := h.unique, waiting := ?_, slots := h.slots,
           answers := ?_, alone := ?_ }
  · intro s hs
    rw [hget, if_neg]
    · exact h.waiting s hs
    · rintro rfl
      exact hni hs
  · intro s j hs
    rw [hget] at hs
    split at hs
    · cases hs; exact hi
    · exact h.answers s j hs
  · intro s s' j t ht hb hs hs'
    rw [hget] at hs hs'
    split at hs <;> split at hs'
    · rename_i h₁ h₂
      exact h₁.symm.trans h₂
    · cases hs
      exact absurd hs' (hn t ht hb s')
    · cases hs'
      exact absurd hs (hn t ht hb s)
    · exact h.alone s s' j t ht hb hs hs'

/-- A request that cannot join any task is given a new one. -/
theorem create (h : Desk e) {d : Descriptor}
    (hn : d.bindable = true → ∀ (i : Nat) (t : Task), e.tasks[i]? = some t →
      ¬t.Serves d.method d.cacheKey) : Desk (e.create d).2 := by
  have hreplies : (e.create d).2.replies = e.replies := by rw [create_eq]
  have hinbox : (e.create d).2.inbox = e.inbox := by rw [create_eq]
  refine { registered := ?_, unique := ?_, waiting := ?_, slots := ?_, answers := ?_, alone := ?_ }
  · intro i t ht hf
    rw [registry_create]
    rw [getElem?_create] at ht
    split at ht
    · rename_i hi
      rw [hi]
      exact List.mem_append_right _ List.mem_cons_self
    · exact List.mem_append_left _ (h.registered i t ht hf)
  · intro i j t u method cacheKey ht hu hst hsu
    rw [getElem?_create] at ht hu
    split at ht <;> split at hu
    · rename_i h₁ h₂
      exact h₁.trans h₂.symm
    · cases ht
      have hb : d.bindable = true := hst.bindable
      have hm : d.method = method := hst.method
      have hk : d.cacheKey = cacheKey := hst.cacheKey
      rw [← hm, ← hk] at hsu
      exact absurd hsu (hn hb j u hu)
    · cases hu
      have hb : d.bindable = true := hsu.bindable
      have hm : d.method = method := hsu.method
      have hk : d.cacheKey = cacheKey := hsu.cacheKey
      rw [← hm, ← hk] at hst
      exact absurd hst (hn hb i t ht)
    · exact h.unique i j t u method cacheKey ht hu hst hsu
  · rw [hreplies, hinbox]; exact h.waiting
  · rw [hinbox]; exact h.slots
  · intro r i hr
    rw [hreplies] at hr
    rw [tasks_create, Array.size_push]
    exact Nat.lt_succ_of_lt (h.answers r i hr)
  · intro r s i t ht hb hr hs
    rw [hreplies] at hr hs
    rw [getElem?_create, if_neg (Nat.ne_of_lt (h.answers r i hr))] at ht
    exact h.alone r s i t ht hb hr hs

/-- The request that came first, taken out of the inbox, has a slot of its own. -/
theorem pop (h : Desk e) {d : Descriptor} {r : Nat} {rest : List Command}
    (hi : e.inbox = .submit d r :: rest) :
    Desk { e with inbox := rest } ∧ e.replies[r]? = some .waiting ∧
      r ∉ rest.filterMap Command.slot? := by
  have hf : e.inbox.filterMap Command.slot? = r :: rest.filterMap Command.slot? := by
    rw [hi]; rfl
  have hn := h.slots
  rw [hf, List.nodup_cons] at hn
  refine ⟨?_, h.waiting r (hf ▸ List.mem_cons_self), hn.1⟩
  refine h.of_grows (.of_eq rfl) rfl (fun _ _ _ _ hi => hi) rfl ?_
  rw [hf]
  exact List.sublist_cons_self _ _

theorem submit (h : Desk e) (d : Descriptor) : Desk (e.submit d).2 := by
  rw [submit_eq]
  -- a stopped engine turns the request away at once
  have hne : ∀ i, (if e.stopped then Reply.refused else .waiting) ≠ .task i := by
    intro i
    split <;> exact Reply.noConfusion
  have hold : ∀ (reply : Reply) (r : Nat), r < e.replies.size →
      (e.replies.push reply)[r]? = e.replies[r]? :=
    fun reply r hr => by rw [Array.getElem?_push, if_neg (Nat.ne_of_lt hr)]
  have hback : ∀ r i : Nat,
      (e.replies.push (if e.stopped then .refused else .waiting))[r]? = some (.task i) →
      e.replies[r]? = some (.task i) := by
    intro r i hr
    rw [Array.getElem?_push] at hr
    split at hr
    · exact absurd (Option.some.inj hr) (hne i)
    · exact hr
  have hlt : ∀ r ∈ e.inbox.filterMap Command.slot?, r < e.replies.size :=
    fun r hr => (Array.getElem?_eq_some_iff.1 (h.waiting r hr)).1
  refine { registered := h.registered, unique := h.unique, waiting := ?_, slots := ?_,
           answers := ?_, alone := ?_ }
  · intro r hr
    cases hs : e.stopped with
    | true =>
      rw [hs] at hr
      exact (hold _ r (hlt r hr)).trans (h.waiting r hr)
    | false =>
      simp only [hs, Bool.false_eq_true, if_false] at hr ⊢
      rw [List.filterMap_append, List.mem_append] at hr
      rcases hr with hr | hr
      · exact (hold _ r (hlt r hr)).trans (h.waiting r hr)
      · have hr' : r = e.replies.size := by simpa [Command.slot?] using hr
        rw [hr']
        exact Array.getElem?_push_size
  · simp only
    split
    · exact h.slots
    · rw [List.filterMap_append]
      refine List.nodup_append.2 ⟨h.slots, by simp [Command.slot?], ?_⟩
      intro r hr s hs
      have hs' : s = e.replies.size := by simpa [Command.slot?] using hs
      have hr' := hlt r hr
      omega
  · exact fun r i hr => h.answers r i (hback r i hr)
  · exact fun r s i t ht hb hr hs => h.alone r s i t ht hb (hback r i hr) (hback s i hs)

/-- The worker stops: requests that wait are turned away, and no others. -/
theorem stop (h : Desk e) : Desk e.stopWorker := by
  have hclosed : Desk (e.registry.foldl (fun e i => e.updateTask i Task.close) e) := by
    refine h.of_grows (.foldl_close e e.registry) ?_ ?_ ?_ ?_
    · exact size_foldl_close e e.registry
    · intro i t _ _ hi
      rw [foldl_close_eq]
      exact hi
    · rw [foldl_close_eq]
    · rw [foldl_close_eq]
  have hback : ∀ r i : Nat, e.stopWorker.replies[r]? = some (.task i) →
      e.replies[r]? = some (.task i) := by
    intro r i hr
    rw [replies_stopWorker] at hr
    split at hr
    · obtain ⟨x, -, hx⟩ := Option.map_eq_some_iff.1 hr
      exact Reply.noConfusion hx
    · exact hr
  have htasks := tasks_stopWorker e
  rw [stopWorker_eq]
  refine { registered := ?_, unique := ?_, waiting := fun r hr => absurd hr List.not_mem_nil,
           slots := List.nodup_nil, answers := ?_, alone := ?_ }
  all_goals simp only [htasks]
  · have hreg := hclosed.registered
    rw [foldl_close_eq] at hreg
    exact hreg
  · exact hclosed.unique
  · intro r i hr
    rw [size_foldl_close]
    exact h.answers r i (hback r i hr)
  · intro r s i t ht hb hr hs
    have halone := hclosed.alone r s i t ht hb
    rw [foldl_close_eq] at halone
    exact halone (hback r i hr) (hback s i hs)

theorem complete (h : Desk e) (p : Promise) (m : Move) : Desk (e.complete p m).2 := by
  refine h.of_grows (.complete e p m) (size_complete e p m) (fun _ _ _ _ hi => ?_)
    (by rw [complete_eq]) ?_
  · rw [complete_eq]; exact hi
  · rw [filterMap_inbox_complete fun _ _ _ => rfl]

theorem deliver (h : Desk e) (i : Nat) (v : Verdict) : Desk (e.deliver i v).2 := by
  refine h.of_grows (.deliver e i v) (size_deliver e i v) (fun _ _ _ _ hi => ?_)
    (by rw [deliver_eq]) (by rw [deliver_eq])
  rw [deliver_eq]
  exact hi

/-- A task leaves the registry only when it finishes. -/
theorem place (h : Desk e) (i : Nat) (source : Option Stage) (next : List Stage) :
    Desk (e.place i source next) := by
  cases ht : e.tasks[i]? with
  | none =>
    simp only [Engine.place, Engine.placeUnder, ht]
    exact h
  | some t =>
    refine h.of_grows (.place e i source next) (size_place e i source next) ?_
      (by rw [place_eq]) (by rw [place_eq])
    intro j t' ht' hf hj
    rw [(registry_place source next ht).1]
    split
    · rename_i hdone
      rw [tasks_place source next ht] at ht'
      split at ht'
      · cases ht'
        rw [Task.moved, if_pos hdone] at hf
        exact absurd hf (by simp [Task.isFinished, ReplayLog.complete])
      · rename_i hij
        exact (List.mem_erase_of_ne (Ne.symm hij)).2 hj
    · exact hj

theorem instruct (h : Desk e) (env : Environment σ) (index : Nat) (r : Routine) :
    Desk (e.instruct env index r) := by
  cases r with
  | finish ending =>
    simp only [Engine.instruct]
    rw [endHandler_eq]
    exact h.of_eq rfl rfl rfl rfl
  | look p k =>
    simp only [Engine.instruct]
    split
    · exact h.of_eq rfl rfl rfl rfl
    · rw [endHandler_eq]
      exact h.of_eq rfl rfl rfl rfl
  | complete p m k => exact (h.complete p m).of_eq rfl rfl rfl rfl
  | deliver p v k => exact (h.deliver p.task v).of_eq rfl rfl rfl rfl
  | _ => exact h.of_eq rfl rfl rfl rfl

/-- A request that is worked off: it joins the task that serves it, or gets a new one. -/
theorem work (h : Desk e) {d : Descriptor} {r : Nat} {rest : List Command}
    (hi : e.inbox = .submit d r :: rest) :
    Desk ({ e with inbox := rest }.handle (.submit d r)) := by
  obtain ⟨h', hr, hni⟩ := h.pop hi
  by_cases hex : d.bindable = true ∧ ∃ (i : Nat) (t : Task), e.tasks[i]? = some t ∧
      t.Serves d.method d.cacheKey
  · obtain ⟨hb, i, t, ht, hs⟩ := hex
    obtain ⟨m, ha⟩ := h'.accept_of_serves hb ht hs
    have hd := h'.answer (i := i) (Array.getElem?_eq_some_iff.1 ht).1 hr hni ?_
    · simp only [handle, ha]
      exact hd.of_eq rfl rfl rfl rfl
    · intro u hu hub
      rw [show ({ e with inbox := rest } : Engine σ).tasks = e.tasks from rfl, ht] at hu
      cases hu
      exact absurd hs.bindable (by rw [hub]; exact Bool.false_ne_true)
  · have hn : d.bindable = true → ∀ (i : Nat) (t : Task),
        ({ e with inbox := rest } : Engine σ).tasks[i]? = some t → ¬t.Serves d.method d.cacheKey :=
      fun hb i t ht hs => hex ⟨hb, i, t, ht, hs⟩
    have hc := h'.create hn
    have hreplies : ({ e with inbox := rest }.create d).2.replies = e.replies := by rw [create_eq]
    have hinbox : ({ e with inbox := rest }.create d).2.inbox = rest := by rw [create_eq]
    have hd := hc.answer (r := r) (i := e.tasks.size)
      (by rw [tasks_create, Array.size_push]; exact Nat.lt_succ_self _) (by rw [hreplies]; exact hr)
      (by rw [hinbox]; exact hni) ?_
    · simp only [handle, accept_of_not_serves hn]
      exact hd
    · intro t _ _ s hs
      rw [hreplies] at hs
      exact Nat.lt_irrefl _ (h.answers s _ hs)

/-- **Every step keeps the desk.** -/
theorem step (h : Desk e) (hs : Step env drift e e') : Desk e' := by
  cases hs with
  | submit d => exact h.submit d
  | shutdown => rw [shutdown_eq]; exact h.of_eq rfl rfl rfl rfl
  | work c rest hc' hs' hi =>
    cases c with
    | submit d r => exact h.work hi
    | transition i source verdict =>
      have h' : Desk { e with inbox := rest } := by
        refine h.of_grows (.of_eq rfl) rfl (fun _ _ _ _ hi => hi) rfl ?_
        rw [hi]
        exact List.Sublist.refl _
      exact h'.place i (some source) verdict.next
  | stop => exact h.stop
  | take stage index rest => rw [handOne_frame]; exact h.of_eq rfl rfl rfl rfl
  | closeWindow stage w => rw [handWindow_eq]; exact h.of_eq rfl rfl rfl rfl
  | run index x r => exact h.instruct env index r
  | rescue index x ending error p => exact h.complete p _
  | read index => rw [readBus_eq]; exact h.of_eq rfl rfl rfl rfl
  | _ => exact h.of_eq rfl rfl rfl rfl

end Desk

theorem Reachable.desk (he : Reachable env drift blocks e) : Desk e := by
  induction he with
  | start world => exact .start blocks world
  | step _ hs ih => exact ih.step hs

/-! ## What becomes of a request -/

/-- **A request that was given a task keeps it**, whatever happens, even if the engine stops. -/
theorem Desk.bound (h : Desk e) (hs : Step env drift e e') {r i : Nat}
    (hr : e.replies[r]? = some (.task i)) : e'.replies[r]? = some (.task i) := by
  -- the slot is none of those that wait
  have hni : r ∉ e.inbox.filterMap Command.slot? := by
    intro hin
    have hw := h.waiting r hin
    rw [hr] at hw
    exact absurd hw (by simp)
  cases hs with
  | submit d =>
    have hlt : r < e.replies.size := (Array.getElem?_eq_some_iff.1 hr).1
    rw [submit_eq]
    exact (Array.getElem?_push.trans (if_neg (Nat.ne_of_lt hlt))).trans hr
  | shutdown => rw [shutdown_eq]; exact hr
  | work c rest hc hrun hi =>
    cases c with
    | submit d s =>
      have hsr : s ≠ r := by
        rintro rfl
        exact hni (by rw [hi]; exact List.mem_cons_self)
      simp only [handle]
      rw [accept_eq]
      exact (Array.getElem?_setIfInBounds_ne hsr).trans hr
    | transition j source verdict => rw [handle, place_eq]; exact hr
  | stop => rw [replies_stopWorker, if_neg hni, hr]
  | take stage index rest => rw [handOne_frame]; exact hr
  | closeWindow stage w => rw [handWindow_eq]; exact hr
  | run index x r' => rw [instruct_eq]; exact hr
  | rescue index x ending error p => rw [complete_eq]; exact hr
  | read index => rw [readBus_eq]; exact hr
  | _ => exact hr

theorem Reachable.bound (he : Reachable env drift blocks e) (hs : Steps env drift e e') {r i : Nat}
    (hr : e.replies[r]? = some (.task i)) : e'.replies[r]? = some (.task i) := by
  induction hs with
  | refl => exact hr
  | tail hs hstep ih => exact (he.steps hs).desk.bound hstep ih

/-- A task that a request may be answered with: it serves the same method and key, and a request
that may not be shared is the task's own. -/
structure Suits (t : Task) (d : Descriptor) : Prop where
  method : t.method = d.method
  cacheKey : t.descriptor.cacheKey = d.cacheKey
  shared : d.bindable = true → t.descriptor.bindable = true
  own : d.bindable = false → t.descriptor = d

/-- A request waits for the worker, or it has been given a task. -/
def Answered (e : Engine σ) (d : Descriptor) (r : Nat) : Prop :=
  (e.replies[r]? = some .waiting ∧ .submit d r ∈ e.inbox) ∨
    ∃ (i : Nat) (t : Task), e.replies[r]? = some (.task i) ∧ e.tasks[i]? = some t ∧ Suits t d

namespace Answered

variable {d : Descriptor} {r : Nat}

/-- An answer is not taken back. -/
theorem of_grows (h : e.Answered d r) (hg : Grows e e')
    (hreplies : e'.replies[r]? = e.replies[r]?)
    (hinbox : .submit d r ∈ e.inbox → .submit d r ∈ e'.inbox) : e'.Answered d r := by
  rcases h with ⟨hr, hi⟩ | ⟨i, t, hr, ht, hs⟩
  · exact .inl ⟨hreplies ▸ hr, hinbox hi⟩
  · obtain ⟨t', ht', hgt⟩ := hg i t ht
    refine .inr ⟨i, t', hreplies ▸ hr, ht', ?_⟩
    refine { method := ?_, cacheKey := ?_, shared := ?_, own := ?_ }
    · rw [← hs.method, Task.method, Task.method, hgt.descriptor]
    · rw [hgt.descriptor]; exact hs.cacheKey
    · rw [hgt.descriptor]; exact hs.shared
    · rw [hgt.descriptor]; exact hs.own

end Answered

/-- What the worker answers to a request that may join a task. -/
theorem Desk.joins (h : Desk e) {d : Descriptor} {r : Nat} {rest : List Command}
    (hi : e.inbox = .submit d r :: rest) (hb : d.bindable = true) {i : Nat} {t : Task}
    (ht : e.tasks[i]? = some t) (hs : t.Serves d.method d.cacheKey) :
    ({ e with inbox := rest }.handle (.submit d r)).replies[r]? = some (.task i) ∧
      ({ e with inbox := rest }.handle (.submit d r)).tasks = e.tasks := by
  obtain ⟨h', hr, -⟩ := h.pop hi
  obtain ⟨m, ha⟩ := h'.accept_of_serves hb ht hs
  simp only [handle, ha]
  refine ⟨?_, rfl⟩
  have hlt : r < e.replies.size := (Array.getElem?_eq_some_iff.1 hr).1
  exact Array.getElem?_setIfInBounds_self_of_lt hlt

/-- What the worker answers to any other request. -/
theorem Desk.creates (h : Desk e) {d : Descriptor} {r : Nat} {rest : List Command}
    (hi : e.inbox = .submit d r :: rest)
    (hn : d.bindable = true → ∀ (i : Nat) (t : Task), e.tasks[i]? = some t →
      ¬t.Serves d.method d.cacheKey) :
    ({ e with inbox := rest }.handle (.submit d r)).replies[r]? = some (.task e.tasks.size) ∧
      ∃ t, ({ e with inbox := rest }.handle (.submit d r)).tasks = e.tasks.push t ∧
        t.descriptor = d ∧ t.isFinished = false := by
  obtain ⟨h', hr, -⟩ := h.pop hi
  have ha : ({ e with inbox := rest } : Engine σ).accept d =
      ({ e with inbox := rest } : Engine σ).create d := accept_of_not_serves hn
  have hlt : r < e.replies.size := (Array.getElem?_eq_some_iff.1 hr).1
  have hreplies : (({ e with inbox := rest } : Engine σ).create d).2.replies = e.replies := by
    rw [create_eq]
  have htasks := tasks_create ({ e with inbox := rest } : Engine σ) d
  simp only [handle, ha]
  refine ⟨?_, _, htasks, rfl, rfl⟩
  rw [hreplies]
  exact Array.getElem?_setIfInBounds_self_of_lt hlt

/-- The request that the worker comes to is answered. -/
theorem Desk.answers_first (h : Desk e) {d : Descriptor} {r : Nat} {rest : List Command}
    (hi : e.inbox = .submit d r :: rest) :
    ({ e with inbox := rest }.handle (.submit d r)).Answered d r := by
  by_cases hex : d.bindable = true ∧ ∃ (i : Nat) (t : Task), e.tasks[i]? = some t ∧
      t.Serves d.method d.cacheKey
  · obtain ⟨hb, i, t, ht, hs⟩ := hex
    obtain ⟨hr, htasks⟩ := h.joins hi hb ht hs
    refine .inr ⟨i, t, hr, (congrArg (·[i]?) htasks).trans ht, hs.method, hs.cacheKey,
      fun _ => hs.bindable, fun hnb => ?_⟩
    rw [hb] at hnb
    exact Bool.noConfusion hnb
  · have hn : d.bindable = true → ∀ (i : Nat) (t : Task), e.tasks[i]? = some t →
        ¬t.Serves d.method d.cacheKey := fun hb i t ht hs => hex ⟨hb, i, t, ht, hs⟩
    obtain ⟨hr, t, htasks, htd, -⟩ := h.creates hi hn
    refine .inr ⟨e.tasks.size, t, hr, ?_, ?_, ?_, ?_, fun _ => htd⟩
    · rw [htasks]
      exact Array.getElem?_push_size
    · rw [Task.method, htd]
    · rw [htd]
    · rw [htd]; exact id

/-- The request that the worker comes to is the only one that waits in its slot. -/
theorem Answered.eq_first {d d' : Descriptor} {r : Nat} {rest : List Command}
    (h : e.Answered d r) (hd : Desk e) (hi : e.inbox = .submit d' r :: rest) : d' = d := by
  obtain ⟨-, hwait, hnot⟩ := hd.pop hi
  rcases h with ⟨-, hin⟩ | ⟨i, t, hr, -⟩
  · rw [hi] at hin
    rcases List.mem_cons.1 hin with heq | hmem
    · cases heq; rfl
    · have hslot : r ∈ rest.filterMap Command.slot? := List.mem_filterMap.2 ⟨_, hmem, rfl⟩
      exact absurd hslot hnot
  · rw [hwait] at hr
    exact absurd hr (by simp)

/-- **A request is answered once and for all**, with a task that suits it. -/
theorem Answered.step {d : Descriptor} {r : Nat} (h : e.Answered d r) (hd : Desk e)
    (hrun : e.stopped = false) (hc : e'.cancelled = false) (hs : Step env drift e e') :
    e'.Answered d r := by
  have hg := hs.grows
  cases hs with
  | submit d' =>
    have hr : r < e.replies.size := by
      rcases h with ⟨hr, -⟩ | ⟨i, t, hr, -⟩ <;> exact (Array.getElem?_eq_some_iff.1 hr).1
    refine h.of_grows hg ?_ fun hi => ?_
    · rw [submit_eq]
      exact (Array.getElem?_push).trans (if_neg (Nat.ne_of_lt hr))
    · rw [submit_eq, hrun, if_neg Bool.false_ne_true]
      exact List.mem_append_left _ hi
  | shutdown => exact h.of_grows hg (by rw [shutdown_eq]) fun hi => by rw [shutdown_eq]; exact hi
  | work c rest hc' hs' hi =>
    cases c with
    | submit d' r' =>
      by_cases hrr : r' = r
      · subst hrr
        rw [← h.eq_first hd hi]
        exact hd.answers_first hi
      · refine h.of_grows hg ?_ fun hin => ?_
        · simp only [handle]
          rw [accept_eq]
          exact Array.getElem?_setIfInBounds_ne hrr
        · rw [handle_eq]
          rw [hi] at hin
          rcases List.mem_cons.1 hin with heq | hmem
          · cases heq
            exact absurd rfl hrr
          · exact hmem
    | transition i source verdict =>
      refine h.of_grows hg (by rw [handle, place_eq]) fun hin => ?_
      rw [handle, place_eq]
      rw [hi] at hin
      rcases List.mem_cons.1 hin with heq | hmem
      · cases heq
      · exact hmem
  | stop hc' => rw [stopWorker_eq] at hc; rw [hc'] at hc; exact Bool.noConfusion hc
  | take stage index rest =>
    exact h.of_grows hg (by rw [handOne_frame]; rfl) fun hi => by rw [handOne_frame]; exact hi
  | closeWindow stage w =>
    exact h.of_grows hg (by rw [handWindow_eq]; rfl) fun hi => by rw [handWindow_eq]; exact hi
  | run index x r' =>
    exact h.of_grows hg (by rw [instruct_eq]) fun hi =>
      (inbox_instruct env index e r').subset hi
  | rescue index x ending error p =>
    exact h.of_grows hg (by rw [complete_eq]) fun hi => (inbox_complete e p _).subset hi
  | read index => exact h.of_grows hg (by rw [readBus_eq]) fun hi => by rw [readBus_eq]; exact hi
  | _ => exact h.of_grows hg rfl id

/-- A request that was just made waits for the worker. -/
theorem Answered.submit (hrun : e.stopped = false) (d : Descriptor) :
    (e.submit d).2.Answered d e.replies.size := by
  refine .inl ⟨?_, ?_⟩
  · rw [submit_eq, hrun, if_neg Bool.false_ne_true]
    exact Array.getElem?_push_size
  · rw [submit_eq, hrun, if_neg Bool.false_ne_true]
    exact List.mem_append_right _ List.mem_cons_self

theorem Answered.steps {d : Descriptor} {r : Nat} (h : e.Answered d r)
    (he : Reachable env drift blocks e) (hs : Steps env drift e e') (hc : e'.cancelled = false) :
    e'.Answered d r := by
  induction hs with
  | refl => exact h
  | tail hs hstep ih =>
    have hc' := hstep.frame.2.1 hc
    have he' := he.steps hs
    exact (ih hc').step he'.desk (he'.running hc') hc hstep

/-! ## The result -/

/-- How calls share tasks, in one state of an engine and from there on. -/
structure Sharing (env : Environment σ) (drift : σ → σ → Prop) (e : Engine σ) : Prop where
  /-- For a method and a key, at most one unfinished task is registered that can be joined. -/
  unique : ∀ i ∈ e.registry, ∀ j ∈ e.registry, ∀ (t u : Task) (method cacheKey : String),
    e.tasks[i]? = some t → e.tasks[j]? = some u → t.Serves method cacheKey →
    u.Serves method cacheKey → i = j
  /-- A request that may join that task does, and no task is created. -/
  joins : ∀ (d : Descriptor) (r : Nat) (rest : List Command), e.inbox = .submit d r :: rest →
    d.bindable = true → ∀ i ∈ e.registry, ∀ t, e.tasks[i]? = some t →
    t.Serves d.method d.cacheKey →
      ({ e with inbox := rest }.handle (.submit d r)).replies[r]? = some (.task i) ∧
        ({ e with inbox := rest }.handle (.submit d r)).tasks = e.tasks
  /-- If there is none, or if the request may not be shared, it gets a task that was not there. -/
  creates : ∀ (d : Descriptor) (r : Nat) (rest : List Command), e.inbox = .submit d r :: rest →
    (d.bindable = true → ∀ i ∈ e.registry, ∀ t, e.tasks[i]? = some t →
      ¬t.Serves d.method d.cacheKey) →
      ({ e with inbox := rest }.handle (.submit d r)).replies[r]? = some (.task e.tasks.size) ∧
        ∃ t, ({ e with inbox := rest }.handle (.submit d r)).tasks = e.tasks.push t ∧
          t.descriptor = d ∧ t.isFinished = false
  /-- A request that may be shared is answered like an equivalent one before it, while that one's
  task is live. -/
  shares : ∀ (d : Descriptor) (r : Nat) (rest : List Command), e.inbox = .submit d r :: rest →
    d.bindable = true → ∀ (s i : Nat) (t : Task), e.replies[s]? = some (.task i) →
    e.tasks[i]? = some t → t.Serves d.method d.cacheKey →
      ({ e with inbox := rest }.handle (.submit d r)).replies[r]? = e.replies[s]?
  /-- A task that may not be shared is the answer to one request only. -/
  alone : ∀ (r s i : Nat) (t : Task), e.tasks[i]? = some t → t.descriptor.bindable = false →
    e.replies[r]? = some (.task i) → e.replies[s]? = some (.task i) → r = s
  /-- Every request made from here on is answered with a task that suits it. -/
  answered : ∀ (d : Descriptor) (e' : Engine σ), Steps env drift (e.submit d).2 e' →
    e'.cancelled = false → e'.Answered d e.replies.size

/-- **Equivalent calls share a task, other calls do not**, in every state of every run before the
engine is told to stop. -/
theorem sharing (he : Reachable env drift blocks e) (hc : e.cancelled = false) :
    Sharing env drift e := by
  have hd := he.desk
  have hrun := he.running hc
  refine { unique := ?_, joins := ?_, creates := ?_, shares := ?_, alone := hd.alone,
           answered := ?_ }
  · intro i _ j _ t u method cacheKey ht hu hst hsu
    exact hd.unique i j t u method cacheKey ht hu hst hsu
  · intro d r rest hi hb i _ t ht hs
    exact hd.joins hi hb ht hs
  · intro d r rest hi hn
    refine hd.creates hi fun hb i t ht hs => ?_
    exact hn hb i (hd.registered i t ht hs.unfinished) t ht hs
  · intro d r rest hi hb s i t hr ht hs
    rw [(hd.joins hi hb ht hs).1, hr]
  · intro d e' hs hc'
    exact (Answered.submit hrun d).steps (he.step (.submit e d)) hs hc'

/-- A second call of `ping` is answered with the task of the first. -/
theorem sharing_pinged :
    Reachable .crashing (fun _ _ => False) (fun _ => .passing) (pinged.submit ping).2 ∧
      (pinged.submit ping).2.cancelled = false ∧
      Sharing .crashing (fun _ _ => False) (pinged.submit ping).2 ∧
      ({ (pinged.submit ping).2 with inbox := [] }.handle (.submit ping 1)).replies[1]? =
        some (.task 0) :=
  have hr : Reachable .crashing (fun _ _ => False) (fun _ => .passing) (pinged.submit ping).2 :=
    .step (.step (.step (.start ()) (.submit _ ping)) (.work _ (.submit ping 0) [] rfl rfl rfl))
      (.submit pinged ping)
  ⟨hr, rfl, sharing hr rfl, rfl⟩

end Engine
end RpcFlow
