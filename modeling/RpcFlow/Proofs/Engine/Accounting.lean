import Mathlib.Data.List.Nodup
import RpcFlow.Proofs.Engine.Contracts

/-!
# Accounting for the stages that hold a task

A task's `holding` is a claim about the rest of the engine: each entry stands for one piece of work
that is still to be done for the task in that stage.  The work can be in four places: the task waits
in the stage's queue, or in its open window, or a promise for it is open, or a transition out of the
stage is on its way to the worker.

* `Engine.outstanding e i` — the stages of the work that is outstanding for a task.
* `Engine.Ledger` — the invariant: `holding` and `outstanding` agree, stage by stage, a task has
  finished when it is held by no stage, and each promise that was used is one recorded verdict.
* `Engine.Ledger.step` — every step keeps the ledger, whatever the strategies and whatever proper
  blocks do.

What follows for the states of runs is collected in `RpcFlow.Proofs.Engine.Finishing`.
-/

set_option autoImplicit false

namespace RpcFlow

/-- The tasks a stage has collected in its window. -/
def Loop.members (l : Loop) : List Nat := (l.gathering.map OpenWindow.members).getD []

@[simp] theorem Loop.members_mk (l : Loop) (queue : List Nat) :
    Loop.members ⟨queue, l.gathering⟩ = l.members := rfl

/-- The stage that a task is on its way out of, if a command is about that task. -/
def Command.source? (i : Nat) : Command → Option Stage
  | submit .. => none
  | transition j source _ => if j = i then some source else none

namespace Engine

variable {σ : Type}

/-! ## Outstanding work -/

/-- Every promise that was given to a handler, in the order they were made. -/
def issued (e : Engine σ) : List Promise := (e.handlers.toList.map Handler.promises).flatten

theorem mem_issued {e : Engine σ} {index : Nat} {h : Handler} {p : Promise}
    (hx : e.handlers[index]? = some h) (hp : p ∈ h.promises) : p ∈ e.issued := by
  refine List.mem_flatten.2 ⟨h.promises, List.mem_map.2 ⟨h, ?_, rfl⟩, hp⟩
  exact Array.mem_toList_iff.2 (Array.mem_of_getElem? hx)

/-- The stages in whose queues a task waits. -/
def queued (e : Engine σ) (i : Nat) : List Stage :=
  Stage.all.flatMap fun s => List.replicate ((e.loop s).queue.count i) s

/-- The stages in whose open windows a task waits. -/
def gathered (e : Engine σ) (i : Nat) : List Stage :=
  Stage.all.flatMap fun s => List.replicate ((e.loop s).members.count i) s

theorem count_cons_eq (i j : Nat) (l : List Nat) : (i :: l).count j = [i].count j + l.count j := by
  rw [← List.count_append, List.singleton_append]

/-- The stages of the open promises for a task. -/
def pending (e : Engine σ) (i : Nat) : List Stage :=
  (e.issued.filter fun p => p.task == i && e.isOpen p).map Promise.stage

/-- The stages that a task is leaving: the worker has yet to be told. -/
def leaving (e : Engine σ) (i : Nat) : List Stage := e.inbox.filterMap (Command.source? i)

/-- The stages of all work that is outstanding for a task. -/
def outstanding (e : Engine σ) (i : Nat) : List Stage :=
  e.queued i ++ e.gathered i ++ e.pending i ++ e.leaving i

/-- The stages that hold a task; none if there is no such task. -/
def holding (e : Engine σ) (i : Nat) : List Stage := (e.tasks[i]?.map Task.holding).getD []

/-- How many pieces of work are outstanding for a task in a stage. -/
def stays (e : Engine σ) (i : Nat) (s : Stage) : Nat :=
  (e.loop s).queue.count i + (e.loop s).members.count i +
    e.issued.countP (fun p => p.task == i && p.stage == s && e.isOpen p) +
    (e.leaving i).count s

theorem count_flatMap_replicate (f : Stage → Nat) (s : Stage) :
    (Stage.all.flatMap fun t => List.replicate (f t) t).count s = f s := by
  simp only [Stage.all, List.flatMap_cons, List.flatMap_nil, List.count_append, List.count_replicate,
    List.count_nil]
  cases s <;> simp

/-- Outstanding work, counted by stage. -/
theorem count_outstanding (e : Engine σ) (i : Nat) (s : Stage) :
    (e.outstanding i).count s = e.stays i s := by
  have hp : (e.pending i).count s =
      e.issued.countP (fun p => p.task == i && p.stage == s && e.isOpen p) := by
    rw [pending, List.count, List.countP_map, List.countP_filter]
    refine List.countP_congr fun p _ => ?_
    simp only [Function.comp_apply, Bool.and_eq_true, beq_iff_eq]
    constructor <;> rintro ⟨h₁, h₂⟩ <;> simp_all
  simp only [outstanding, List.count_append, queued, gathered, count_flatMap_replicate, hp, stays]

/-! ## The invariant -/

/-- Work and holding agree: what is known of every promise, what every handler may still do, and how
many pieces of work there are for each entry of `holding`. -/
structure Ledger (e : Engine σ) : Prop where
  numbers : e.issued.map Promise.number = List.range e.used.size
  promised : ∀ p ∈ e.issued, ∃ t, e.tasks[p.task]? = some t ∧ p.taskId = t.id ∧
    p.descriptor = t.descriptor
  within : ∀ (i : Nat) (h : Handler), e.handlers[i]? = some h → ∀ r, h.state = .running r →
    r.Within h.promises
  balance : ∀ (i : Nat) (s : Stage), (e.holding i).count s = e.stays i s
  finished : ∀ (i : Nat) (t : Task), e.tasks[i]? = some t → (t.isFinished = true ↔ t.holding = [])
  recorded : ∀ (i : Nat) (t : Task), e.tasks[i]? = some t →
    t.resultsCount = e.issued.countP fun p => p.task == i && !e.isOpen p

variable {e e' : Engine σ}

theorem holding_of_some {i : Nat} {t : Task} (h : e.tasks[i]? = some t) : e.holding i = t.holding := by
  rw [holding, h]; rfl

theorem holding_of_none {i : Nat} (h : e.tasks[i]? = none) : e.holding i = [] := by
  rw [holding, h]; rfl

namespace Ledger

/-- The books are kept over some fields only. -/
theorem of_eq (h : Ledger e) (tasks : e'.tasks = e.tasks) (used : e'.used = e.used)
    (inbox : e'.inbox = e.inbox) (loops : e'.loops = e.loops) (handlers : e'.handlers = e.handlers) :
    Ledger e' := by
  cases e
  cases e'
  subst tasks used inbox loops handlers
  exact ⟨h.numbers, h.promised, h.within, h.balance, h.finished, h.recorded⟩

/-- Where there is work for a task, there is the task, and it has not finished. -/
theorem exists_task (h : Ledger e) {i : Nat} {s : Stage} (hs : 0 < e.stays i s) :
    ∃ t, e.tasks[i]? = some t ∧ s ∈ t.holding ∧ t.isFinished = false := by
  cases ht : e.tasks[i]? with
  | none =>
    rw [← h.balance, holding_of_none ht] at hs
    exact absurd hs (Nat.lt_irrefl 0)
  | some t =>
    rw [← h.balance, holding_of_some ht, List.count_pos_iff] at hs
    refine ⟨t, rfl, hs, ?_⟩
    cases hf : t.isFinished with
    | false => rfl
    | true => rw [(h.finished i t ht).1 hf] at hs; exact absurd hs List.not_mem_nil

/-- An open promise is work. -/
theorem task_of_open (h : Ledger e) {p : Promise} (hp : p ∈ e.issued) (ho : e.isOpen p = true) :
    ∃ t, e.tasks[p.task]? = some t ∧ t.isFinished = false := by
  have hc : 0 < e.issued.countP fun q => q.task == p.task && q.stage == p.stage && e.isOpen q :=
    List.countP_pos_iff.2 ⟨p, hp, by simp [ho]⟩
  obtain ⟨t, ht, -, hf⟩ := h.exists_task (i := p.task) (s := p.stage) (by rw [stays]; omega)
  exact ⟨t, ht, hf⟩

theorem unfinished_of_open (h : Ledger e) {p : Promise} (hp : p ∈ e.issued)
    (ho : e.isOpen p = true) {t : Task} (ht : e.tasks[p.task]? = some t) : t.isFinished = false := by
  obtain ⟨t', ht', hf⟩ := h.task_of_open hp ho
  rw [ht] at ht'
  cases ht'
  exact hf

/-- A promise bears the request of its task. -/
theorem descriptor_eq (h : Ledger e) {p : Promise} (hp : p ∈ e.issued) {t : Task}
    (ht : e.tasks[p.task]? = some t) : p.descriptor = t.descriptor := by
  obtain ⟨t', ht', -, hd⟩ := h.promised p hp
  rw [ht] at ht'
  cases ht'
  exact hd

/-- So a verdict leads where the strategy of the task says. -/
theorem verdict_eq (h : Ledger e) {p : Promise} (hp : p ∈ e.issued) {t : Task}
    (ht : e.tasks[p.task]? = some t) (m : Move) :
    p.verdict m = m.verdict t.descriptor.strategy p.stage := by
  rw [Promise.verdict, h.descriptor_eq hp ht]

/-- A task that waits in a stage is work. -/
theorem task_of_loop (h : Ledger e) {i : Nat} {stage : Stage}
    (hi : 0 < (e.loop stage).queue.count i + (e.loop stage).members.count i) :
    ∃ t, e.tasks[i]? = some t := by
  obtain ⟨t, ht, -⟩ := h.exists_task (i := i) (s := stage) (by rw [stays]; omega)
  exact ⟨t, ht⟩

/-- A transition that the worker comes to is work. -/
theorem task_of_transition (h : Ledger e) {i : Nat} {source : Stage} {v : Verdict}
    {rest : List Command} (hi : e.inbox = .transition i source v :: rest) :
    ∃ t, e.tasks[i]? = some t ∧ source ∈ t.holding ∧ t.isFinished = false := by
  refine h.exists_task ?_
  rw [stays, leaving, hi, List.filterMap_cons, Command.source?, if_pos rfl, List.count_cons_self]
  omega

theorem nodup_numbers (h : Ledger e) : (e.issued.map Promise.number).Nodup := by
  rw [h.numbers]
  exact List.nodup_range

/-- The promises of a handler differ. -/
theorem nodup_promises (h : Ledger e) {index : Nat} {x : Handler}
    (hx : e.handlers[index]? = some x) : (x.promises.map Promise.number).Nodup := by
  have hmem : x.promises ∈ e.handlers.toList.map Handler.promises :=
    List.mem_map_of_mem (Array.mem_toList_iff.2 (Array.mem_of_getElem? hx))
  have hsub : x.promises.Sublist e.issued := List.sublist_flatten_of_mem hmem
  exact h.nodup_numbers.sublist (hsub.map Promise.number)

theorem number_lt (h : Ledger e) {p : Promise} (hp : p ∈ e.issued) : p.number < e.used.size := by
  have hm : p.number ∈ e.issued.map Promise.number := List.mem_map_of_mem hp
  rw [h.numbers] at hm
  exact List.mem_range.1 hm

theorem start (blocks : Stage → Block) (world : σ) : Ledger (Engine.start blocks world) where
  numbers := rfl
  promised := fun p hp => absurd hp List.not_mem_nil
  within := fun i h hi => by simp [Engine.start] at hi
  balance := fun i s => by
    have hl : (Engine.start blocks world).loop s = ⟨[], none⟩ := by
      simp [Engine.start, loop]
    rw [holding_of_none (by simp [Engine.start]), stays, hl]
    rfl
  finished := fun i t ht => by simp [Engine.start] at ht
  recorded := fun i t ht => by simp [Engine.start] at ht

end Ledger

/-! ## Promises are made -/

theorem issued_assign (e : Engine σ) (stage : Stage) (ps : List Promise) (r : Routine) :
    (e.assign stage ps r).issued = e.issued ++ ps := by
  simp [issued, assign]

/-- Promises that were made before are as open as they were. -/
theorem isOpen_assign_of_lt {e : Engine σ} {p : Promise} (h : p.number < e.used.size)
    (stage : Stage) (ps : List Promise) (r : Routine) :
    (e.assign stage ps r).isOpen p = e.isOpen p := by
  simp only [isOpen, assign]
  rw [Array.getElem?_append_left h]

/-- Promises that are just made are open. -/
theorem isOpen_assign_of_mem {e : Engine σ} {p : Promise} {ps : List Promise}
    (hn : ps.map Promise.number = List.range' e.used.size ps.length) (hp : p ∈ ps) (stage : Stage)
    (r : Routine) : (e.assign stage ps r).isOpen p = true := by
  have hm : p.number ∈ ps.map Promise.number := List.mem_map_of_mem hp
  rw [hn, List.mem_range'_1] at hm
  have hlt : p.number - e.used.size < ps.length := by omega
  simp only [isOpen, assign]
  rw [Array.getElem?_append_right hm.1, Array.getElem?_replicate, if_pos hlt]
  rfl

/-- Every promise that is made is one more piece of work for its task. -/
theorem stays_assign {e : Engine σ} {stage : Stage} {ps : List Promise}
    (ho : ∀ p ∈ e.issued, p.number < e.used.size)
    (hn : ps.map Promise.number = List.range' e.used.size ps.length)
    (hs : ∀ p ∈ ps, p.stage = stage) (r : Routine) (i : Nat) (s : Stage) :
    (e.assign stage ps r).stays i s =
      e.stays i s + if stage = s then (ps.map Promise.task).count i else 0 := by
  have hold : e.issued.countP (fun p => p.task == i && p.stage == s &&
      (e.assign stage ps r).isOpen p) =
      e.issued.countP (fun p => p.task == i && p.stage == s && e.isOpen p) := by
    refine List.countP_congr fun p hp => ?_
    rw [isOpen_assign_of_lt (ho p hp)]
  have hnew : ps.countP (fun p => p.task == i && p.stage == s &&
      (e.assign stage ps r).isOpen p) =
      if stage = s then (ps.map Promise.task).count i else 0 := by
    rw [List.count, List.countP_map]
    split
    · rename_i hst
      refine List.countP_congr fun p hp => ?_
      simp [isOpen_assign_of_mem hn hp, hs p hp, hst]
    · rename_i hst
      refine List.countP_eq_zero.2 fun p hp => ?_
      simp [hs p hp, hst]
  have hl : (e.assign stage ps r).loop s = e.loop s := rfl
  have hi : (e.assign stage ps r).leaving i = e.leaving i := rfl
  rw [stays, stays, issued_assign, List.countP_append, hold, hnew, hl, hi]
  omega

/-- The stays of a task change with the loops of a stage only. -/
theorem stays_setLoop (e : Engine σ) (stage s : Stage) (l : Loop) (i : Nat) :
    (e.setLoop stage l).stays i s +
        (if stage = s then (e.loop s).queue.count i + (e.loop s).members.count i else 0) =
      e.stays i s + (if stage = s then l.queue.count i + l.members.count i else 0) := by
  have hi : (e.setLoop stage l).leaving i = e.leaving i := rfl
  have hp : (e.setLoop stage l).issued = e.issued := rfl
  have ho : (e.setLoop stage l).isOpen = e.isOpen := rfl
  rw [stays, stays, hi, hp, ho, loop_setLoop]
  by_cases h : stage = s
  · simp only [if_pos h]
    omega
  · simp only [if_neg h]

namespace Ledger

/-- A stage may move its tasks between queue and window. -/
theorem collect (h : Ledger e) {stage : Stage} {l : Loop}
    (hl : ∀ i, l.queue.count i + l.members.count i =
      (e.loop stage).queue.count i + (e.loop stage).members.count i) :
    Ledger (e.setLoop stage l) := by
  refine ⟨h.numbers, h.promised, h.within, fun i s => ?_, h.finished, h.recorded⟩
  have hb := h.balance i s
  have hs := stays_setLoop e stage s l i
  have hi := hl i
  rw [show (e.setLoop stage l).holding i = e.holding i from rfl, hb]
  split at hs
  · rename_i hst
    rw [← hst] at hs ⊢
    omega
  · omega

/-- Tasks leave the loop of a stage, and promises for them are handed to a handler that acts only
through these. -/
theorem hand (h : Ledger e) {stage : Stage} {l : Loop} {members : List Nat} {r : Routine}
    (hl : ∀ i, l.queue.count i + l.members.count i + members.count i =
      (e.loop stage).queue.count i + (e.loop stage).members.count i)
    (hr : r.Within ((e.setLoop stage l).promises stage members).1) :
    Ledger ((e.setLoop stage l).assign stage ((e.setLoop stage l).promises stage members).1 r) := by
  have hm : ∀ i ∈ members, i < (e.setLoop stage l).tasks.size := by
    intro i hi
    have hc : 0 < members.count i := List.count_pos_iff.2 hi
    have hi' := hl i
    have hpos : 0 < (e.loop stage).queue.count i + (e.loop stage).members.count i := by omega
    obtain ⟨t, ht⟩ := h.task_of_loop hpos
    exact (Array.getElem?_eq_some_iff.1 ht).1
  have htask := map_task_promises (e := e.setLoop stage l) stage hm
  have hnum := map_number_promises (e.setLoop stage l) stage members
  have hnew : ∀ p ∈ ((e.setLoop stage l).promises stage members).1, p.stage = stage ∧
      ∃ t, (e.setLoop stage l).tasks[p.task]? = some t ∧ p.taskId = t.id ∧
        p.descriptor = t.descriptor := fun p => forall_promises
  generalize ((e.setLoop stage l).promises stage members).1 = ps at *
  have ho : ∀ p ∈ (e.setLoop stage l).issued, p.number < (e.setLoop stage l).used.size :=
    fun p hp => h.number_lt hp
  refine { numbers := ?_, promised := ?_, within := ?_, balance := ?_, finished := h.finished,
           recorded := ?_ }
  · have hsize : ((e.setLoop stage l).assign stage ps r).used.size = e.used.size + ps.length := by
      simp [assign, setLoop]
    have hnum' : ps.map Promise.number = List.range' (0 + 1 * e.used.size) ps.length := by
      rw [hnum, Nat.zero_add, Nat.one_mul]; rfl
    rw [issued_assign, List.map_append, hsize]
    rw [show (e.setLoop stage l).issued = e.issued from rfl, h.numbers, hnum']
    rw [List.range_eq_range', List.range_eq_range', List.range'_append]
  · rw [issued_assign]
    intro p hp
    rcases List.mem_append.1 hp with hp | hp
    · exact h.promised p hp
    · exact (hnew p hp).2
  · intro i x hx r' hr'
    simp only [assign, Array.getElem?_push] at hx
    split at hx
    · cases hx
      cases hr'
      exact hr
    · exact h.within i x hx r' hr'
  · intro i s
    have hb := h.balance i s
    have hs := stays_setLoop e stage s l i
    have hi := hl i
    have ha := stays_assign ho hnum (fun p hp => (hnew p hp).1) r i s
    rw [htask] at ha
    rw [show ((e.setLoop stage l).assign stage ps r).holding i = e.holding i from rfl, hb, ha]
    split at hs
    · rename_i hst
      rw [← hst, if_pos rfl] at *
      omega
    · rename_i hst
      rw [if_neg hst]
      omega
  · intro i t ht
    rw [issued_assign, List.countP_append, h.recorded i t ht]
    have hold : e.issued.countP (fun p => p.task == i &&
        !((e.setLoop stage l).assign stage ps r).isOpen p) =
        e.issued.countP (fun p => p.task == i && !e.isOpen p) := by
      refine List.countP_congr fun p hp => ?_
      rw [isOpen_assign_of_lt (ho p hp)]
      rfl
    have hfresh : ps.countP (fun p => p.task == i &&
        !((e.setLoop stage l).assign stage ps r).isOpen p) = 0 := by
      refine List.countP_eq_zero.2 fun p hp => ?_
      simp [isOpen_assign_of_mem hnum hp]
    rw [show (e.setLoop stage l).issued = e.issued from rfl, hold, hfresh]
    rfl

end Ledger

/-! ## Promises are used -/

/-- What a handler is about to do has no say in which promises it was given. -/
theorem issued_updateHandler (e : Engine σ) (i : Nat) {f : Handler → Handler}
    (hf : ∀ h, (f h).promises = h.promises) : (e.updateHandler i f).issued = e.issued := by
  have hm : (e.handlers.modify i f).map Handler.promises = e.handlers.map Handler.promises := by
    ext j h₁ h₂
    · simp
    · simp only [Array.getElem_map, Array.getElem_modify]
      split <;> simp_all
  simp only [issued, updateHandler]
  rw [← Array.toList_map, ← Array.toList_map, hm]

/-- Among promises with numbers of their own, one that changes sides is one less on the one and one
more on the other. -/
theorem countP_of_flip {l : List Promise} (hn : (l.map Promise.number).Nodup) {p : Promise}
    (hp : p ∈ l) (before after : Promise → Bool)
    (hr : ∀ q ∈ l, q.number ≠ p.number → after q = before q) (hb : before p = true)
    (ha : after p = false) : l.countP before = l.countP after + 1 := by
  obtain ⟨s, t, rfl⟩ := List.append_of_mem hp
  simp only [List.map_append, List.map_cons] at hn
  have hne := (List.nodup_middle.1 hn)
  rw [List.nodup_cons, List.mem_append] at hne
  have hs : s.countP after = s.countP before := by
    refine List.countP_congr fun q hq => ?_
    rw [hr q (by simp [hq]) fun he => hne.1 (.inl (he ▸ List.mem_map_of_mem hq))]
  have ht : t.countP after = t.countP before := by
    refine List.countP_congr fun q hq => ?_
    rw [hr q (by simp [hq]) fun he => hne.1 (.inr (he ▸ List.mem_map_of_mem hq))]
  simp only [List.countP_append, List.countP_cons, hs, ht, hb, ha, if_true, Bool.false_eq_true,
    if_false]
  omega

theorem isOpen_complete {e : Engine σ} {p : Promise} (ho : e.isOpen p = true) (m : Move)
    (q : Promise) :
    (e.complete p m).2.isOpen q = if q.number = p.number then false else e.isOpen q := by
  rw [complete_of_isOpen ho]
  simp only [isOpen] at ho ⊢
  by_cases hq : q.number = p.number
  · rw [if_pos hq, hq]
    have hlt : p.number < e.used.size := by
      by_contra hge
      rw [Array.getElem?_eq_none (by omega)] at ho
      exact absurd ho (by decide)
    simp [hlt]
  · rw [if_neg hq, Array.getElem?_setIfInBounds_ne (Ne.symm hq)]

/-- The tasks after a promise was used: its task has one more verdict. -/
theorem tasks_complete {e : Engine σ} {p : Promise} (ho : e.isOpen p = true) (m : Move) (i : Nat) :
    (e.complete p m).2.tasks[i]? =
      if p.task = i then e.tasks[i]?.map fun t => t.record (p.verdict m) else e.tasks[i]? := by
  rw [complete_of_isOpen ho, Array.getElem?_modify]

theorem holding_complete {e : Engine σ} {p : Promise} (m : Move) (i : Nat) :
    (e.complete p m).2.holding i = e.holding i := by
  by_cases ho : e.isOpen p = true
  · rw [holding, holding, tasks_complete ho]
    split
    · cases e.tasks[i]? <;> rfl
    · rfl
  · rw [complete_of_used (by simpa using ho)]

theorem holding_deliver (e : Engine σ) (i : Nat) (v : Verdict) (j : Nat) :
    (e.deliver i v).2.holding j = e.holding j := by
  rw [holding, holding, tasks_deliver]
  split
  · cases e.tasks[j]? with
    | none => rfl
    | some t => simp only [Option.map_some, Option.getD_some]; rw [Task.deliver_frame]
  · rfl

/-- Using a promise turns the work of a handler into work of the worker. -/
theorem stays_complete {e : Engine σ} {p : Promise} (hn : (e.issued.map Promise.number).Nodup)
    (hp : p ∈ e.issued) (hs : e.stopped = false) (m : Move) (i : Nat) (s : Stage) :
    (e.complete p m).2.stays i s = e.stays i s := by
  by_cases ho : e.isOpen p = true
  swap
  · rw [complete_of_used (by simpa using ho)]
  have hissued : (e.complete p m).2.issued = e.issued := by rw [complete_of_isOpen ho]; rfl
  have hloop : (e.complete p m).2.loop s = e.loop s := by rw [complete_of_isOpen ho]; rfl
  have hleaving : (e.complete p m).2.leaving i =
      e.leaving i ++ if p.task = i then [p.stage] else [] := by
    rw [complete_of_isOpen ho]
    simp only [leaving, hs, Bool.false_eq_true, if_false, List.filterMap_append]
    congr 1
    simp only [List.filterMap_cons, List.filterMap_nil, Command.source?]
    split <;> simp_all
  rw [stays, stays, hissued, hloop, hleaving, List.count_append]
  by_cases hpi : p.task = i ∧ p.stage = s
  · obtain ⟨rfl, rfl⟩ := hpi
    have hflip := countP_of_flip hn hp
      (fun q => q.task == p.task && q.stage == p.stage && e.isOpen q)
      (fun q => q.task == p.task && q.stage == p.stage && (e.complete p m).2.isOpen q)
      (fun q _ hq => by simp only [isOpen_complete ho, if_neg hq]) (by simp [ho])
      (by simp [isOpen_complete ho])
    rw [hflip]
    simp only [if_true, List.count_singleton_self]
    omega
  · have hsame : e.issued.countP (fun q => q.task == i && q.stage == s &&
        (e.complete p m).2.isOpen q) =
        e.issued.countP (fun q => q.task == i && q.stage == s && e.isOpen q) := by
      refine List.countP_congr fun q hq => ?_
      rw [isOpen_complete ho]
      by_cases hqp : q.number = p.number
      · have : q = p := List.inj_on_of_nodup_map hn hq hp hqp
        subst this
        simp only [Bool.and_eq_true, beq_iff_eq, hpi, false_and]
      · rw [if_neg hqp]
    have hzero : (if p.task = i then [p.stage] else []).count s = 0 := by
      split
      · rename_i hi
        refine List.count_eq_zero.2 fun hm => hpi ⟨hi, ?_⟩
        exact (List.mem_singleton.1 hm).symm
      · rfl
    rw [hsame, hzero, Nat.add_zero]

namespace Ledger

/-- A handler may go on with anything that keeps to its promises. -/
theorem updateHandler (h : Ledger e) (i : Nat) {f : Handler → Handler}
    (hf : ∀ x, (f x).promises = x.promises)
    (hr : ∀ x r, e.handlers[i]? = some x → (f x).state = .running r → r.Within x.promises) :
    Ledger (e.updateHandler i f) := by
  have hissued : (e.updateHandler i f).issued = e.issued := issued_updateHandler e i hf
  refine { numbers := ?_, promised := ?_, within := ?_, balance := ?_, finished := h.finished,
           recorded := ?_ }
  · rw [hissued]; exact h.numbers
  · rw [hissued]; exact h.promised
  · intro j x hx r hxr
    rw [Engine.updateHandler, Array.getElem?_modify] at hx
    split at hx
    · rename_i hij
      obtain ⟨y, hy, rfl⟩ := Option.map_eq_some_iff.1 hx
      rw [hf]
      exact hr y r (hij ▸ hy) hxr
    · exact h.within j x hx r hxr
  · intro j s
    rw [stays, hissued]
    exact h.balance j s
  · intro j t ht
    rw [hissued]
    exact h.recorded j t ht

theorem resume (h : Ledger e) {i : Nat} {r : Routine}
    (hr : ∀ x, e.handlers[i]? = some x → r.Within x.promises) : Ledger (e.resume i r) :=
  h.updateHandler i (fun _ => rfl) fun x r' hx he => by cases he; exact hr x hx

theorem endHandler (h : Ledger e) (i : Nat) (ending : Ending) : Ledger (e.endHandler i ending) := by
  have hu : Ledger (e.updateHandler i fun x => { x with state := .ended ending }) :=
    h.updateHandler i (fun _ => rfl) fun _ _ _ he => by cases he
  rw [endHandler_eq]
  exact hu.of_eq rfl rfl rfl rfl rfl

theorem watch (h : Ledger e) (i : Nat) :
    Ledger (e.updateHandler i fun x => { x with watched := true }) :=
  h.updateHandler i (fun _ => rfl) fun x r hx he => h.within i x hx r he

/-- The use of a promise. -/
theorem complete (h : Ledger e) (hs : e.stopped = false) {p : Promise} (hp : p ∈ e.issued)
    (m : Move) : Ledger (e.complete p m).2 := by
  by_cases ho : e.isOpen p = true
  swap
  · rw [complete_of_used (by simpa using ho)]
    exact h
  have hissued : (e.complete p m).2.issued = e.issued := by rw [complete_of_isOpen ho]; rfl
  have hused : (e.complete p m).2.used.size = e.used.size := by
    rw [complete_of_isOpen ho]; simp
  have hhandlers : (e.complete p m).2.handlers = e.handlers := by rw [complete_of_isOpen ho]
  -- an open promise is work, so the verdicts of its task are not closed
  have hopen : ∀ t, e.tasks[p.task]? = some t → t.results.completed = false :=
    fun t ht => h.unfinished_of_open hp ho ht
  refine { numbers := ?_, promised := ?_, within := ?_, balance := ?_, finished := ?_,
           recorded := ?_ }
  · rw [hissued, hused]; exact h.numbers
  · rw [hissued]
    intro q hq
    obtain ⟨t, ht, hid, hd⟩ := h.promised q hq
    rw [tasks_complete ho, ht]
    split
    · exact ⟨t.record (p.verdict m), rfl, hid, hd⟩
    · exact ⟨t, rfl, hid, hd⟩
  · rw [hhandlers]; exact h.within
  · intro i s
    rw [holding_complete, stays_complete h.nodup_numbers hp hs]
    exact h.balance i s
  · intro i t ht
    rw [tasks_complete ho] at ht
    split at ht
    · obtain ⟨t', ht', rfl⟩ := Option.map_eq_some_iff.1 ht
      rename_i hi
      rw [Task.record_of_open (hopen t' (hi ▸ ht'))]
      exact h.finished i t' ht'
    · exact h.finished i t ht
  · intro i t ht
    rw [hissued]
    rw [tasks_complete ho] at ht
    split at ht
    · rename_i hi
      obtain ⟨t', ht', rfl⟩ := Option.map_eq_some_iff.1 ht
      have hflip := countP_of_flip h.nodup_numbers hp
        (fun q => q.task == i && !(e.complete p m).2.isOpen q)
        (fun q => q.task == i && !e.isOpen q)
        (fun q _ hq => by simp only [isOpen_complete ho, if_neg hq])
        (by simp [isOpen_complete ho, hi]) (by simp [ho])
      rw [Task.record_of_open (hopen t' (hi ▸ ht')), hflip, ← h.recorded i t' ht']
      simp [Task.resultsCount, ReplayLog.size]
    · rename_i hi
      rw [h.recorded i t ht]
      refine List.countP_congr fun q hq => ?_
      rw [isOpen_complete ho]
      by_cases hqp : q.number = p.number
      · have : q = p := List.inj_on_of_nodup_map h.nodup_numbers hq hp hqp
        subst this
        simp [hi]
      · rw [if_neg hqp]

/-- A delivery leaves the books alone. -/
theorem deliver (h : Ledger e) (i : Nat) (v : Verdict) : Ledger (e.deliver i v).2 := by
  have hsame : ∀ t : Task, (t.deliver v).1 = { t with delivered := (t.deliver v).1.delivered } :=
    fun t => t.deliver_frame v
  have htasks : ∀ (j : Nat) (t' : Task), (e.deliver i v).2.tasks[j]? = some t' →
      ∃ (t : Task) (d : ReplayLog Verdict), e.tasks[j]? = some t ∧
      t' = { t with delivered := d } := by
    intro j t' ht'
    rw [tasks_deliver] at ht'
    split at ht'
    · obtain ⟨t, ht, rfl⟩ := Option.map_eq_some_iff.1 ht'
      exact ⟨t, _, ht, hsame t⟩
    · exact ⟨t', t'.delivered, ht', rfl⟩
  have hissued : (e.deliver i v).2.issued = e.issued := by rw [deliver_eq]; rfl
  have hisOpen : (e.deliver i v).2.isOpen = e.isOpen := by rw [deliver_eq]; rfl
  have hstays : ∀ j s, (e.deliver i v).2.stays j s = e.stays j s := by
    intro j s
    rw [deliver_eq]; rfl
  refine { numbers := ?_, promised := ?_, within := ?_, balance := ?_, finished := ?_,
           recorded := ?_ }
  · rw [hissued, deliver_eq]; exact h.numbers
  · rw [hissued]
    intro p hp
    obtain ⟨t, ht, hid, hd⟩ := h.promised p hp
    rw [tasks_deliver, ht]
    split
    · exact ⟨_, congrArg some (hsame t), hid, hd⟩
    · exact ⟨t, rfl, hid, hd⟩
  · rw [deliver_eq]; exact h.within
  · intro j s
    rw [holding_deliver, hstays]
    exact h.balance j s
  · intro j t' ht'
    obtain ⟨t, d, ht, rfl⟩ := htasks j t' ht'
    exact h.finished j t ht
  · intro j t' ht'
    obtain ⟨t, d, ht, rfl⟩ := htasks j t' ht'
    rw [hissued, hisOpen]
    exact h.recorded j t ht

end Ledger

/-! ## The worker moves tasks -/

theorem count_without (t : Task) (source s : Stage) :
    (t.without (some source)).count s = t.holding.count s - if source = s then 1 else 0 := by
  rw [Task.without, List.count_erase]
  simp only [beq_iff_eq]

/-- The commands that are left once the worker has taken the first. -/
theorem leaving_of_transition {i : Nat} {source : Stage} {v : Verdict} {rest : List Command}
    (hi : e.inbox = .transition i source v :: rest) (j : Nat) :
    e.leaving j = (if i = j then [source] else []) ++ leaving { e with inbox := rest } j := by
  simp only [leaving, hi, List.filterMap_cons, Command.source?]
  by_cases hij : i = j <;> simp [hij]

theorem holding_place {i : Nat} {t : Task} (source : Option Stage) (next : List Stage)
    (ht : e.tasks[i]? = some t) (j : Nat) :
    (e.place i source next).holding j =
      if i = j then t.without source ++ next else e.holding j := by
  rw [holding, tasks_place source next ht]
  split
  · exact t.holding_moved source next
  · rfl

/-- A task that is placed waits in the stages it goes to. -/
theorem stays_place {i : Nat} {t : Task} (source : Option Stage) (next : List Stage)
    (ht : e.tasks[i]? = some t) (j : Nat) (s : Stage) :
    (e.place i source next).stays j s = e.stays j s + if i = j then next.count s else 0 := by
  have hissued : (e.place i source next).issued = e.issued := by rw [place_eq]; rfl
  have hisOpen : (e.place i source next).isOpen = e.isOpen := by rw [place_eq]; rfl
  have hleaving : (e.place i source next).leaving = e.leaving := by rw [place_eq]; rfl
  rw [stays, stays, hissued, hisOpen, hleaving, loop_place _ _ _ ht, Loop.members_mk,
    List.count_append, List.count_replicate]
  by_cases hij : i = j
  · simp only [hij, beq_self_eq_true, if_true]
    omega
  · simp [hij]

/-- The worker turns its own work into work of the stages a task goes to. -/
theorem stays_move {i : Nat} {source : Stage} {v : Verdict} {rest : List Command} {t : Task}
    (hi : e.inbox = .transition i source v :: rest) (ht : e.tasks[i]? = some t) (j : Nat) (s : Stage) :
    ({ e with inbox := rest }.place i (some source) v.next).stays j s +
        (if i = j then [source].count s else 0) =
      e.stays j s + if i = j then v.next.count s else 0 := by
  have hrest : e.stays j s =
      stays { e with inbox := rest } j s + if i = j then [source].count s else 0 := by
    rw [stays, leaving_of_transition hi, List.count_append]
    rw [show (if i = j then [source] else []).count s = if i = j then [source].count s else 0 by
      split <;> rfl]
    rw [stays]
    simp only [loop, isOpen, issued]
    omega
  have hplace := stays_place (e := { e with inbox := rest }) (some source) v.next ht j s
  omega

namespace Ledger

/-- A task moves: the work of the worker becomes work of the stages the task goes to. -/
theorem move (h : Ledger e) {i : Nat} {source : Stage} {v : Verdict} {rest : List Command}
    (hi : e.inbox = .transition i source v :: rest) :
    Ledger ({ e with inbox := rest }.place i (some source) v.next) := by
  obtain ⟨t, ht, hmem, hfin⟩ := h.task_of_transition hi
  have ht₀ : ({ e with inbox := rest } : Engine σ).tasks[i]? = some t := ht
  have hissued : ({ e with inbox := rest }.place i (some source) v.next).issued = e.issued := by
    rw [place_eq]; rfl
  have hisOpen : ({ e with inbox := rest }.place i (some source) v.next).isOpen = e.isOpen := by
    rw [place_eq]; rfl
  obtain ⟨hid, -, hd, hitems, -⟩ := t.moved_frame (some source) v.next
  refine { numbers := ?_, promised := ?_, within := ?_, balance := ?_, finished := ?_,
           recorded := ?_ }
  · rw [hissued, place_eq]; exact h.numbers
  · rw [hissued]
    intro p hp
    obtain ⟨t', ht', hid', hd'⟩ := h.promised p hp
    rw [tasks_place _ _ ht₀]
    split
    · rename_i hpi
      rw [← hpi, ht] at ht'
      cases ht'
      exact ⟨_, rfl, hid'.trans hid.symm, hd'.trans hd.symm⟩
    · exact ⟨t', ht', hid', hd'⟩
  · rw [place_eq]; exact h.within
  · intro j s
    have hb := h.balance j s
    have hs := stays_move hi ht j s
    rw [holding_place _ _ ht₀]
    split
    · rename_i hij
      have hpos : 0 < t.holding.count source := List.count_pos_iff.2 hmem
      rw [← hij, holding_of_some ht] at hb
      rw [← hij] at hs ⊢
      rw [if_pos rfl, if_pos rfl, List.count_singleton] at hs
      rw [List.count_append, count_without]
      by_cases hss : source = s
      · rw [← hss] at hb hs ⊢
        simp only [beq_self_eq_true, if_true] at hs ⊢
        omega
      · simp only [beq_eq_false_iff_ne.2 hss, Bool.false_eq_true, if_neg hss, if_false] at hs ⊢
        omega
    · rename_i hij
      rw [if_neg hij, if_neg hij] at hs
      exact hb.trans hs.symm
  · intro j t' ht'
    rw [tasks_place _ _ ht₀] at ht'
    split at ht'
    · cases ht'
      rw [t.holding_moved, Task.isFinished_moved hfin]
    · exact h.finished j t' ht'
  · intro j t' ht'
    rw [hissued, hisOpen]
    rw [tasks_place _ _ ht₀] at ht'
    split at ht'
    · rename_i hij
      cases ht'
      rw [Task.resultsCount, ReplayLog.size, hitems, ← hij]
      exact h.recorded i t ht
    · exact h.recorded j t' ht'

end Ledger

/-- A task that is created waits in the first stage. -/
theorem stays_create (e : Engine σ) (d : Descriptor) (i : Nat) (s : Stage) :
    (e.create d).2.stays i s =
      e.stays i s + if i = e.tasks.size then [Stage.initial].count s else 0 := by
  have hissued : (e.create d).2.issued = e.issued := by rw [create_eq]; rfl
  have hisOpen : (e.create d).2.isOpen = e.isOpen := by rw [create_eq]; rfl
  have hleaving : (e.create d).2.leaving = e.leaving := by rw [create_eq]; rfl
  rw [stays, stays, hissued, hisOpen, hleaving, loop_create, Loop.members_mk, List.count_append,
    List.count_replicate]
  by_cases hi : i = e.tasks.size
  · rw [if_pos hi, if_pos (by simp [hi])]
    omega
  · rw [if_neg hi, if_neg (by simp [Ne.symm hi])]
    omega

namespace Ledger

/-- A task is created: it waits in the first stage, which holds it. -/
theorem create (h : Ledger e) (d : Descriptor) : Ledger (e.create d).2 := by
  have hissued : (e.create d).2.issued = e.issued := by rw [create_eq]; rfl
  have hisOpen : (e.create d).2.isOpen = e.isOpen := by rw [create_eq]; rfl
  have hnone : e.tasks[e.tasks.size]? = none := Array.getElem?_eq_none (Nat.le_refl _)
  refine { numbers := ?_, promised := ?_, within := ?_, balance := ?_, finished := ?_,
           recorded := ?_ }
  · rw [hissued, create_eq]; exact h.numbers
  · rw [hissued]
    intro p hp
    obtain ⟨t, ht, hid, hd⟩ := h.promised p hp
    exact ⟨t, getElem?_create_of_some ht d, hid, hd⟩
  · rw [create_eq]; exact h.within
  · intro j s
    have hb := h.balance j s
    rw [stays_create, holding, getElem?_create]
    by_cases hj : j = e.tasks.size
    · rw [hj, holding_of_none hnone, List.count_nil] at hb
      rw [hj, if_pos rfl, if_pos rfl, ← hb, Nat.zero_add]
      rfl
    · rw [if_neg hj, if_neg hj, Nat.add_zero]
      exact hb
  · intro j t ht
    rw [getElem?_create] at ht
    split at ht
    · cases ht
      simp [Task.isFinished, Task.fresh, ReplayLog.empty]
    · exact h.finished j t ht
  · intro j t ht
    rw [hissued, hisOpen]
    rw [getElem?_create] at ht
    split at ht
    · -- no promise was made for the task yet
      rename_i hj
      cases ht
      refine (List.countP_eq_zero.2 fun p hp => ?_).symm
      obtain ⟨t, ht, -⟩ := h.promised p hp
      have hne : p.task ≠ j := by
        rintro hp'
        rw [hp', hj, hnone] at ht
        exact absurd ht (by simp)
      simp [hne]
    · exact h.recorded j t ht

end Ledger

/-! ## Every step keeps the books -/

/-- One instruction of a routine that keeps to its promises. -/
theorem Ledger.instruct (h : Ledger e) {env : Environment σ} {index : Nat} {x : Handler}
    {r : Routine} (hs : e.stopped = false) (hx : e.handlers[index]? = some x)
    (hr : r.Within x.promises) : Ledger (e.instruct env index r) := by
  have hgo : ∀ {e' : Engine σ} {r' : Routine}, Ledger e' → e'.handlers = e.handlers →
      r'.Within x.promises → Ledger (e'.resume index r') := by
    intro e' r' he' hh hr'
    refine he'.resume fun y hy => ?_
    rw [hh, hx] at hy
    cases hy
    exact hr'
  cases r with
  | finish ending => exact h.endHandler index ending
  | look p k =>
    simp only [Engine.instruct]
    split
    · exact hgo h rfl (hr.2 _ trivial)
    · exact h.endHandler index .ok
  | complete p m k =>
    exact hgo (h.complete hs (mem_issued hx hr.1.1) m) (by rw [complete_eq]) (hr.2 _)
  | deliver p v k => exact hgo (h.deliver p.task v) (by rw [deliver_eq]) (hr.2 _)
  | fetch transport call k => exact hgo (h.of_eq rfl rfl rfl rfl rfl) rfl (hr _ trivial)
  | readCache key k => exact hgo (h.of_eq rfl rfl rfl rfl rfl) rfl (hr _ trivial)
  | writeCache key value lifetime k => exact hgo (h.of_eq rfl rfl rfl rfl rfl) rfl (hr.2 _ trivial)
  | decode body type k => exact hgo (h.of_eq rfl rfl rfl rfl rfl) rfl (hr _ trivial)
  | validate value k => exact hgo (h.of_eq rfl rfl rfl rfl rfl) rfl (hr _ trivial)
  | announce method headers k => exact hgo (h.of_eq rfl rfl rfl rfl rfl) rfl hr
  | report m k => exact hgo (h.of_eq rfl rfl rfl rfl rfl) rfl hr
  | setFlag p key value k => exact hgo (h.of_eq rfl rfl rfl rfl rfl) rfl hr.2
  | sleep d k => exact hgo h rfl hr
  | count stage k => exact hgo (h.of_eq rfl rfl rfl rfl rfl) rfl (hr _)
  | note p n k => exact hgo (h.of_eq rfl rfl rfl rfl rfl) rfl hr.2

/-- **Every step keeps the books**, as long as the engine is not told to stop. -/
theorem Ledger.step {env : Environment σ} {drift : σ → σ → Prop} (h : Ledger e)
    (hb : ∀ s, (e.blocks s).Proper) (hrun : e.stopped = false) (hc : e'.cancelled = false)
    (hs : Step env drift e e') : Ledger e' := by
  cases hs with
  | submit d =>
    rw [submit_eq, if_neg (by simp [hrun])]
    refine ⟨h.numbers, h.promised, h.within, fun i s => ?_, h.finished, h.recorded⟩
    have hl : leaving { e with inbox := e.inbox ++ [.submit d e.replies.size] } i = e.leaving i := by
      simp [leaving, Command.source?]
    have hst := h.balance i s
    rw [stays, ← hl] at hst
    exact hst
  | shutdown => rw [shutdown_eq] at hc; exact Bool.noConfusion hc
  | work c rest hc' hs' hi =>
    cases c with
    | submit d reply =>
      have h' : Ledger { e with inbox := rest } := by
        refine ⟨h.numbers, h.promised, h.within, fun i s => ?_, h.finished, h.recorded⟩
        have hst := h.balance i s
        rw [stays, leaving, hi] at hst
        exact hst
      simp only [handle]
      rcases accept_cases { e with inbox := rest } d with ⟨i, t, -, -, ha⟩ | ⟨-, ha⟩
      · rw [ha]
        exact h'.of_eq rfl rfl rfl rfl rfl
      · rw [ha]
        exact (h'.create d).of_eq rfl rfl rfl rfl rfl
    | transition i source verdict => exact h.move hi
  | stop hc' => rw [stopWorker_eq] at hc; rw [hc'] at hc; exact Bool.noConfusion hc
  | take stage index rest hc' hw hq =>
    have hcount : ∀ j, rest.count j + (e.loop stage).members.count j + [index].count j =
        (e.loop stage).queue.count j + (e.loop stage).members.count j := by
      intro j
      rw [hq, count_cons_eq index j rest]
      omega
    have hpos : 0 < (e.loop stage).queue.count index + (e.loop stage).members.count index := by
      rw [hq, List.count_cons_self]
      omega
    obtain ⟨t, ht⟩ := h.task_of_loop hpos
    obtain ⟨hp, he⟩ := handOne_eq (e := e.setLoop stage { e.loop stage with queue := rest })
      (i := index) stage ht
    rw [he]
    refine (h.hand hcount ?_).of_eq rfl rfl rfl rfl rfl
    rw [hp]
    exact (hb stage).onTask _
  | openWindow stage window index rest hc' hw hg hq =>
    refine h.collect fun j => ?_
    rw [hq, Loop.members, Loop.members, hg, count_cons_eq]
    simp only [Option.map_some, Option.map_none, Option.getD_some, Option.getD_none, List.count_nil]
    omega
  | gather stage w index rest hc' hw hg hd hq =>
    refine h.collect fun j => ?_
    rw [hq, Loop.members, Loop.members, hg, count_cons_eq]
    simp only [Option.map_some, Option.getD_some, List.count_append]
    omega
  | closeWindow stage w hc' hw hg hd =>
    rw [handWindow_eq]
    refine (h.hand (fun j => ?_) ((hb stage).onWindow _)).of_eq rfl rfl rfl rfl rfl
    rw [Loop.members, Loop.members, hg]
    simp only [Option.map_some, Option.map_none, Option.getD_some, Option.getD_none, List.count_nil]
    omega
  | forget stage hc' => exact absurd (hc.symm.trans hc') (by decide)
  | run index x r hx hr => exact h.instruct hrun hx (h.within index x hx r hr)
  | watch index => exact h.watch index
  | rescue index x ending error p hx hst herr hp =>
    exact h.complete hrun (mem_issued hx hp) _
  | read index => rw [readBus_eq]; exact h.of_eq rfl rfl rfl rfl rfl
  | _ => exact h.of_eq rfl rfl rfl rfl rfl

end Engine
end RpcFlow
