import RpcFlow.Proofs.Engine.Lulls
import RpcFlow.Proofs.Engine.Schedule
import RpcFlow.Proofs.Engine.Turns

/-!
# What windows gather

Tasks arrive at a stage with a window at any time.  The first opens a window, those that arrive before
its end join it, and then all of them are handed to the block of the stage.  Nothing is lost, doubled or
put out of order on the way, whatever else the engine does.

* `Engine.Intake` — when tasks arrived at a stage, were taken and were handed over.
* `Engine.Stir`, `Engine.Step.stir` — what a step does in a stage with a window.
* `Engine.Logbook` — the runs with the intake of a stage, on an exact clock.
* `Engine.Logged` — the invariant: the tasks that were taken make up the windows.
* `Engine.Passes`, `Engine.windowLoop_passes` — what a turn of the loop hands over, also when the queue
  of the stage is closed.
* `Engine.gathers_in_windows` — **a window holds what arrives before its end, and nothing else.**
-/

set_option autoImplicit false

namespace RpcFlow

/-- The entries of a list with times at which a window is open that was opened at the moment `opened`. -/
def Duration.within (window : Duration) (opened : Moment) (l : List (Moment × Nat)) :
    List (Moment × Nat) :=
  l.filter fun x => decide (opened ≤ x.1 ∧
    (Duration.ofMillis x.1).nanos < (Duration.ofMillis opened).nanos + window.nanos)

namespace Engine

variable {σ : Type} {env : Environment σ} {drift : σ → σ → Prop} {blocks : Stage → Block}
  {e e' e'' : Engine σ} {stage : Stage} {window : Duration}

/-! ## What is seen of a stage -/

/-- The tasks that a step puts into the queue of a stage. -/
def arriving (stage : Stage) (e e' : Engine σ) : List Nat :=
  (e'.loop stage).queue.drop (e.loop stage).queue.length

/-- The tasks that a step takes out of the queue of a stage. -/
def taking (stage : Stage) (e e' : Engine σ) : List Nat :=
  (e.loop stage).queue.take ((e.loop stage).queue.length - (e'.loop stage).queue.length)

/-- The tasks of the handlers of a stage that are started between two states, handler by handler. -/
def handing (stage : Stage) (e e' : Engine σ) : List (List Nat) :=
  ((e'.handlers.toList.drop e.handlers.size).filter fun h => h.stage == stage).map fun h =>
    h.promises.map Promise.task

/-- What is seen of a stage: when tasks arrived in its queue, when they were taken out of it, and when
its handlers were started with which tasks. -/
structure Intake where
  arrived : List (Moment × Nat)
  taken : List (Moment × Nat)
  handed : List (Moment × List Nat)

/-- A step is added. -/
def Intake.note (k : Intake) (stage : Stage) (e e' : Engine σ) : Intake where
  arrived := k.arrived ++ (arriving stage e e').map (Prod.mk e.now)
  taken := k.taken ++ (taking stage e e').map (Prod.mk e.now)
  handed := k.handed ++ (handing stage e e').map (Prod.mk e.now)

theorem handing_of_size (h : e'.handlers.size = e.handlers.size) : handing stage e e' = [] := by
  rw [handing, List.drop_of_length_le (Nat.le_of_eq (by rw [Array.length_toList, h]))]
  rfl

theorem handing_of_push {x : Handler} (h : e'.handlers = e.handlers.push x) :
    handing stage e e' = if x.stage = stage then [x.promises.map Promise.task] else [] := by
  have hdrop : e'.handlers.toList.drop e.handlers.size = [x] := by
    rw [h, Array.toList_push, ← Array.length_toList, List.drop_left]
  rw [handing, hdrop, List.filter_singleton]
  by_cases hst : x.stage = stage
  · rw [if_pos hst, hst, beq_self_eq_true]
    rfl
  · rw [if_neg hst, beq_eq_false_iff_ne.2 hst]
    rfl

namespace Intake

variable (k : Intake)

theorem note_arrive {new : List Nat} (hq : (e'.loop stage).queue = (e.loop stage).queue ++ new)
    (hhanding : handing stage e e' = []) :
    k.note stage e e' = { k with arrived := k.arrived ++ new.map (Prod.mk e.now) } := by
  have harriving : arriving stage e e' = new := by rw [arriving, hq, List.drop_left]
  have htaking : taking stage e e' = [] := by
    rw [taking, hq, List.length_append, Nat.sub_eq_zero_of_le (Nat.le_add_right _ _), List.take_zero]
  simp only [note, harriving, htaking, hhanding, List.map_nil, List.append_nil]

theorem note_take {i : Nat} (hq : (e.loop stage).queue = i :: (e'.loop stage).queue)
    (hhanding : handing stage e e' = []) :
    k.note stage e e' = { k with taken := k.taken ++ [(e.now, i)] } := by
  have harriving : arriving stage e e' = [] := by
    rw [arriving, hq]
    exact List.drop_of_length_le (Nat.le_succ _)
  have htaking : taking stage e e' = [i] := by
    rw [taking, hq, List.length_cons, Nat.add_sub_cancel_left]
    rfl
  simp only [note, harriving, htaking, hhanding, List.map_nil, List.map_cons, List.append_nil]

theorem note_hand {members : List Nat} (hq : (e'.loop stage).queue = (e.loop stage).queue)
    (hhanding : handing stage e e' = [members]) :
    k.note stage e e' = { k with handed := k.handed ++ [(e.now, members)] } := by
  have harriving : arriving stage e e' = [] := by
    rw [arriving, hq, List.drop_length]
  have htaking : taking stage e e' = [] := by rw [taking, hq, Nat.sub_self, List.take_zero]
  simp only [note, harriving, htaking, hhanding, List.map_nil, List.map_cons, List.append_nil]

end Intake

/-! ## What a step does in a stage -/

/-- What a step does in a stage with a window: tasks arrive, or one opens a window, or one joins it, or
the window ends. -/
inductive Stir (stage : Stage) (window : Duration) (e e' : Engine σ) : Prop
  | arrive (new : List Nat) : e'.loop stage = { e.loop stage with queue := (e.loop stage).queue ++ new } →
    handing stage e e' = [] → e.now ≤ e'.now → (new ≠ [] → e'.now = e.now) → Stir stage window e e'
  | opens (i : Nat) (rest : List Nat) : e.loop stage = ⟨i :: rest, none⟩ →
    e'.loop stage = ⟨rest, some ⟨[i], e.now + window.ticks⟩⟩ → handing stage e e' = [] →
    e'.now = e.now → Stir stage window e e'
  | joins (w : OpenWindow) (i : Nat) (rest : List Nat) : e.loop stage = ⟨i :: rest, some w⟩ →
    e.now < w.deadline → e'.loop stage = ⟨rest, some { w with members := w.members ++ [i] }⟩ →
    handing stage e e' = [] → e'.now = e.now → Stir stage window e e'
  | closes (w : OpenWindow) (queue : List Nat) : e.loop stage = ⟨queue, some w⟩ → w.deadline ≤ e.now →
    e'.loop stage = ⟨queue, none⟩ → handing stage e e' = [w.members] → e'.now = e.now →
    Stir stage window e e'

theorem handlers_handOne {i : Nat} {t : Task} (s : Stage) (ht : e.tasks[i]? = some t) :
    ∃ ps r, (e.handOne s i).handlers = e.handlers.push ⟨s, ps, .running r, false⟩ := by
  rw [(handOne_eq s ht).2]
  exact ⟨_, _, rfl⟩

/-- When a window ends, a handler is started for all tasks that it has. -/
theorem handlers_handWindow (s : Stage) (l : Loop) {members : List Nat}
    (hm : ∀ i ∈ members, i < e.tasks.size) :
    ∃ x : Handler, ((e.setLoop s l).handWindow s members).handlers = e.handlers.push x ∧
      x.stage = s ∧ x.promises.map Promise.task = members :=
  ⟨_, congrArg Engine.handlers (handWindow_eq (e.setLoop s l) s members), rfl,
    map_task_promises (e := e.setLoop s l) s hm⟩

/-- The tasks that a stage has in its queue or its window. -/
def line (e : Engine σ) (stage : Stage) : List Nat := (e.loop stage).members ++ (e.loop stage).queue

theorem mem_line {w : OpenWindow} (hg : (e.loop stage).gathering = some w) {i : Nat}
    (hi : i ∈ w.members) : i ∈ e.line stage := by
  rw [line, Loop.members, hg]
  exact List.mem_append_left _ hi

theorem Ledger.lt_of_mem_line (hl : Ledger e) {i : Nat} (hi : i ∈ e.line stage) : i < e.tasks.size := by
  have hpos : 0 < (e.loop stage).queue.count i + (e.loop stage).members.count i := by
    rcases List.mem_append.1 hi with hi | hi
    · exact Nat.add_pos_right _ (List.count_pos_iff.2 hi)
    · exact Nat.add_pos_left (List.count_pos_iff.2 hi) _
  obtain ⟨t, ht⟩ := hl.task_of_loop hpos
  exact (Array.getElem?_eq_some_iff.1 ht).1

/-- **What a step does in a stage with a window.** -/
theorem Step.stir (hs : Step env drift e e') (hl : Ledger e) (hc : e.cancelled = false)
    (hw : (e.blocks stage).window = some window) : Stir stage window e e' := by
  have hquiet : e'.loop stage = e.loop stage → handing stage e e' = [] → e.now ≤ e'.now →
      Stir stage window e e' := fun hloop hhanding hnow =>
    .arrive [] (by rw [hloop, List.append_nil]) hhanding hnow fun hne => absurd rfl hne
  have hsame : e'.loops = e.loops → e'.handlers.size = e.handlers.size → e'.now = e.now →
      Stir stage window e e' := fun hloops hsize hnow =>
    hquiet (by rw [loop, loop, hloops]) (handing_of_size hsize) (Nat.le_of_eq hnow.symm)
  cases hs with
  | pass now nextTask world hle => exact hquiet rfl (handing_of_size rfl) hle
  | submit d => exact hsame (by rw [submit_eq]) (by rw [submit_eq]) (by rw [submit_eq])
  | shutdown => exact hsame (by rw [shutdown_eq]) (by rw [shutdown_eq]) (by rw [shutdown_eq])
  | work c rest =>
    obtain ⟨new, hnew⟩ := loop_handle { e with inbox := rest } c stage
    have he := handle_eq { e with inbox := rest } c
    have hnow : ({ e with inbox := rest }.handle c).now = e.now := by rw [he]
    exact .arrive new hnew (handing_of_size (by rw [he])) (Nat.le_of_eq hnow.symm) fun _ => hnow
  | stop hc' => rw [hc] at hc'; cases hc'
  | take s index rest _ hnone =>
    have hne : s ≠ stage := fun heq => by rw [heq, hw] at hnone; cases hnone
    have hloop : ((e.setLoop s { e.loop s with queue := rest }).handOne s index).loop stage =
        e.loop stage := by
      rw [handOne_frame]
      exact (loop_setLoop e s stage _).trans (if_neg hne)
    refine hquiet hloop ?_ (by rw [handOne_frame]; exact Nat.le_refl _)
    cases ht : (e.setLoop s { e.loop s with queue := rest }).tasks[index]? with
    | none => rw [handOne_of_none s ht]; exact handing_of_size rfl
    | some t =>
      obtain ⟨ps, r, hpush⟩ := handlers_handOne s ht
      exact (handing_of_push hpush).trans (if_neg hne)
  | openWindow s window' index rest _ hwindow hg hq =>
    by_cases heq : s = stage
    · subst heq
      rw [hw] at hwindow
      cases hwindow
      refine .opens index rest ?_ ((loop_setLoop e s s _).trans (if_pos rfl)) (handing_of_size rfl) rfl
      rw [← hq, ← hg]
    · exact hquiet ((loop_setLoop e s stage _).trans (if_neg heq)) (handing_of_size rfl) (Nat.le_refl _)
  | gather s w index rest _ _ hg hlt hq =>
    by_cases heq : s = stage
    · subst heq
      refine .joins w index rest ?_ hlt ((loop_setLoop e s s _).trans (if_pos rfl))
        (handing_of_size rfl) rfl
      rw [← hq, ← hg]
    · exact hquiet ((loop_setLoop e s stage _).trans (if_neg heq)) (handing_of_size rfl) (Nat.le_refl _)
  | closeWindow s w _ _ hg hle =>
    have hloop : ∀ t, ((e.setLoop s { e.loop s with gathering := none }).handWindow s w.members).loop t =
        if s = t then { e.loop s with gathering := none } else e.loop t := fun t =>
      (loop_handWindow _ s t w.members).trans (loop_setLoop e s t _)
    have hnow : ((e.setLoop s { e.loop s with gathering := none }).handWindow s w.members).now =
        e.now := by rw [handWindow_eq]; rfl
    obtain ⟨x, hpush, hstage, htasks⟩ := handlers_handWindow s { e.loop s with gathering := none }
      fun i hi => hl.lt_of_mem_line (mem_line hg hi)
    have hhanding : handing stage e _ = _ := handing_of_push hpush
    rw [hstage, htasks] at hhanding
    by_cases heq : s = stage
    · subst heq
      refine .closes w (e.loop s).queue ?_ hle ((hloop s).trans (if_pos rfl))
        (hhanding.trans (if_pos rfl)) hnow
      rw [← hg]
    · exact hquiet ((hloop stage).trans (if_neg heq)) (hhanding.trans (if_neg heq))
        (Nat.le_of_eq hnow.symm)
  | forget s hc' => rw [hc] at hc'; cases hc'
  | run index x r =>
    exact hsame (by rw [instruct_eq]) (size_handlers_instruct env index e r) (by rw [instruct_eq])
  | watch index => exact hsame rfl Array.size_modify rfl
  | rescue index x ending error p =>
    exact hsame (by rw [complete_eq]) (by rw [complete_eq]) (by rw [complete_eq])
  | read index => exact hsame (by rw [readBus_eq]) (by rw [readBus_eq]) (by rw [readBus_eq])
  | _ => exact hsame rfl rfl rfl

/-! ## Runs on an exact clock -/

/-- The clock is exact: it moves on only when the loop of a stage has taken every task out of its queue,
and it stops at the end of the window until that is handed over. -/
def Punctual (stage : Stage) (e e' : Engine σ) : Prop :=
  e'.now = e.now ∨
    (e.loop stage).queue = [] ∧ ∀ w ∈ (e.loop stage).gathering, e'.now ≤ w.deadline

/-- The runs of an engine with the intake of a stage. -/
inductive Logbook (env : Environment σ) (drift : σ → σ → Prop) (blocks : Stage → Block)
    (stage : Stage) : Intake → Engine σ → Prop
  | start (world : σ) : Logbook env drift blocks stage ⟨[], [], []⟩ (Engine.start blocks world)
  | step {k : Intake} {e e' : Engine σ} : Logbook env drift blocks stage k e → Step env drift e e' →
    Punctual stage e e' → Logbook env drift blocks stage (k.note stage e e') e'

variable {k : Intake}

namespace Logbook

theorem reachable (h : Logbook env drift blocks stage k e) : Reachable env drift blocks e := by
  induction h with
  | start world => exact .start world
  | step _ hs _ ih => exact ih.step hs

/-- Whatever an engine does by itself is logged, since it takes no time. -/
theorem own (h : Logbook env drift blocks stage k e) (hs : OwnSteps env e e') :
    ∃ k', Logbook env drift blocks stage k' e' := by
  induction hs with
  | refl => exact ⟨k, h⟩
  | tail _ hs ih =>
    obtain ⟨k', h'⟩ := ih
    exact ⟨_, h'.step (hs.mono fun _ _ hf => hf.elim) (.inl hs.now_eq.1)⟩

/-- So is every turn. -/
theorem turn (h : Logbook env drift blocks stage k e) (a : Actor) :
    ∃ k', Logbook env drift blocks stage k' (e.turn env a) :=
  h.own (turn_steps e a)

end Logbook

/-- The intake of a stage when a schedule is played. -/
def Intake.along (env : Environment σ) (stage : Stage) : Intake → Engine σ → List Occasion → Intake
  | k, _, [] => k
  | k, e, a :: rest => along env stage (k.note stage e (e.act env a)) (e.act env a) rest

/-- The clock is exact while a schedule is played. -/
def PunctualAlong (env : Environment σ) (stage : Stage) : Engine σ → List Occasion → Prop
  | _, [] => True
  | e, a :: rest => Punctual stage e (e.act env a) ∧ PunctualAlong env stage (e.act env a) rest

theorem Logbook.play (h : Logbook env Eq blocks stage k e) {schedule : List Occasion}
    (hp : PunctualAlong env stage e schedule) :
    Logbook env Eq blocks stage (k.along env stage e schedule) (e.play env schedule) := by
  induction schedule generalizing k e with
  | nil => exact h
  | cons a rest ih => exact ih (h.step (act_step env e a) hp.1) hp.2

instance (stage : Stage) (e e' : Engine σ) : Decidable (Punctual stage e e') :=
  inferInstanceAs (Decidable (_ ∨ _ ∧ _))

instance decidablePunctualAlong (env : Environment σ) (stage : Stage) :
    (e : Engine σ) → (schedule : List Occasion) → Decidable (PunctualAlong env stage e schedule)
  | _, [] => inferInstanceAs (Decidable True)
  | e, a :: rest =>
    have := decidablePunctualAlong env stage (e.act env a) rest
    inferInstanceAs (Decidable (_ ∧ _))

/-! ## Windows -/

/-- A window: when it was opened, and the tasks that it holds, each with the moment it was taken. -/
structure Haul where
  opened : Moment
  tasks : List (Moment × Nat)

/-- When a window ends. -/
def Haul.ends (window : Duration) (v : Haul) : Moment := v.opened + window.ticks

/-- A window is opened by the first task that it holds, and the others follow before it ends. -/
structure Haul.Fits (window : Duration) (v : Haul) : Prop where
  first : ∃ i rest, v.tasks = (v.opened, i) :: rest
  times : ∀ x ∈ v.tasks, v.opened ≤ x.1 ∧ x.1 < v.ends window

/-- The intake of a stage, read as windows that have ended and one that may be open: the tasks that were
taken are those of the windows, in their order, each window was handed over when it ended, and the next
was not opened before. -/
structure Logged (stage : Stage) (window : Duration) (k : Intake) (e : Engine σ) (hauls : List Haul)
    (current : Option Haul) : Prop where
  arrived : k.arrived = k.taken ++ (e.loop stage).queue.map (Prod.mk e.now)
  taken : k.taken = (hauls ++ current.toList).flatMap Haul.tasks
  handed : k.handed = hauls.map fun v => (v.ends window, v.tasks.map Prod.snd)
  gathering : (e.loop stage).gathering =
    current.map fun v => ⟨v.tasks.map Prod.snd, v.ends window⟩
  fits : ∀ v ∈ hauls ++ current.toList, v.Fits window
  apart : (hauls ++ current.toList).Pairwise fun v v' => v.ends window ≤ v'.opened
  past : ∀ v ∈ hauls, v.ends window ≤ e.now
  present : ∀ v ∈ current, v.opened ≤ e.now ∧ e.now ≤ v.ends window

namespace Logged

variable {hauls : List Haul} {current : Option Haul}

theorem start (blocks : Stage → Block) (world : σ) :
    Logged stage window ⟨[], [], []⟩ (Engine.start blocks world) [] none where
  arrived := by simp [loop, Engine.start]
  taken := rfl
  handed := rfl
  gathering := by simp [loop, Engine.start]
  fits _ hv := absurd hv List.not_mem_nil
  apart := .nil
  past _ hv := absurd hv List.not_mem_nil
  present _ hv := by cases hv

/-- Tasks arrive, or time passes. -/
theorem arrive (h : Logged stage window k e hauls current) {new : List Nat}
    (hloop : e'.loop stage = { e.loop stage with queue := (e.loop stage).queue ++ new })
    (hhanding : handing stage e e' = []) (hnow : e.now ≤ e'.now) (hnew : new ≠ [] → e'.now = e.now)
    (hp : Punctual stage e e') : Logged stage window (k.note stage e e') e' hauls current := by
  rw [k.note_arrive (congrArg Loop.queue hloop) hhanding]
  refine ⟨?_, h.taken, h.handed, ?_, h.fits, h.apart, fun v hv => Nat.le_trans (h.past v hv) hnow,
    fun v hv => ⟨Nat.le_trans (h.present v hv).1 hnow, ?_⟩⟩
  · -- if the clock moves on, nothing waits and nothing arrives
    have hqueue : ((e.loop stage).queue ++ new).map (Prod.mk e'.now) =
        ((e.loop stage).queue ++ new).map (Prod.mk e.now) := by
      rcases hp with heq | ⟨hempty, -⟩
      · rw [heq]
      · by_cases hne : new = []
        · rw [hempty, hne]
          rfl
        · rw [hnew hne]
    rw [hloop, hqueue, List.map_append, ← List.append_assoc, h.arrived]
  · rw [hloop]
    exact h.gathering
  · rcases hp with heq | ⟨-, hends⟩
    · exact heq ▸ (h.present v hv).2
    · refine hends ⟨v.tasks.map Prod.snd, v.ends window⟩ ?_
      rw [h.gathering, hv]
      rfl

/-- A task opens a window. -/
theorem opens (h : Logged stage window k e hauls current) (hpos : 0 < window.ticks) {i : Nat}
    {rest : List Nat} (hbefore : e.loop stage = ⟨i :: rest, none⟩)
    (hloop : e'.loop stage = ⟨rest, some ⟨[i], e.now + window.ticks⟩⟩)
    (hhanding : handing stage e e' = []) (hnow : e'.now = e.now) :
    Logged stage window (k.note stage e e') e' hauls (some ⟨e.now, [(e.now, i)]⟩) := by
  rw [k.note_take (i := i) (by rw [hbefore, hloop]) hhanding]
  obtain rfl : current = none := by
    have hnone := h.gathering
    rw [hbefore] at hnone
    exact Option.map_eq_none_iff.1 hnone.symm
  have hhauls : hauls ++ (none : Option Haul).toList = hauls := List.append_nil hauls
  refine ⟨?_, ?_, h.handed, ?_, fun v hv => ?_, ?_, fun v hv => hnow ▸ h.past v hv, fun v hv => ?_⟩
  · rw [h.arrived, hbefore, hloop, hnow, List.map_cons, List.append_assoc]
    rfl
  · rw [h.taken, hhauls, List.flatMap_append]
    rfl
  · rw [hloop]
    rfl
  · rcases List.mem_append.1 hv with hv | hv
    · exact h.fits v (List.mem_append_left _ hv)
    · obtain rfl := List.mem_singleton.1 hv
      refine ⟨⟨i, [], rfl⟩, fun x hx => ?_⟩
      obtain rfl := List.mem_singleton.1 hx
      exact ⟨Nat.le_refl _, Nat.lt_add_of_pos_right hpos⟩
  · refine List.pairwise_append.2 ⟨hhauls ▸ h.apart, List.pairwise_singleton _ _, fun v hv v' hv' => ?_⟩
    obtain rfl := List.mem_singleton.1 hv'
    exact h.past v hv
  · cases hv
    exact ⟨Nat.le_of_eq hnow.symm, hnow ▸ Nat.le_add_right _ _⟩

/-- The window that is open is the current one. -/
theorem exists_current (h : Logged stage window k e hauls current) {queue : List Nat} {w : OpenWindow}
    (hloop : e.loop stage = ⟨queue, some w⟩) :
    ∃ v, current = some v ∧ ⟨v.tasks.map Prod.snd, v.ends window⟩ = w := by
  have hsome := h.gathering
  rw [hloop] at hsome
  exact Option.map_eq_some_iff.1 hsome.symm

/-- A task joins the window that is open. -/
theorem joins (h : Logged stage window k e hauls current) {w : OpenWindow} {i : Nat}
    {rest : List Nat} (hbefore : e.loop stage = ⟨i :: rest, some w⟩) (hlt : e.now < w.deadline)
    (hloop : e'.loop stage = ⟨rest, some { w with members := w.members ++ [i] }⟩)
    (hhanding : handing stage e e' = []) (hnow : e'.now = e.now) :
    ∃ current', Logged stage window (k.note stage e e') e' hauls current' := by
  rw [k.note_take (i := i) (by rw [hbefore, hloop]) hhanding]
  obtain ⟨v, rfl, rfl⟩ := h.exists_current hbefore
  have hfits := h.fits v (List.mem_append_right _ (List.mem_singleton_self v))
  have hopened := (h.present v rfl).1
  refine ⟨some ⟨v.opened, v.tasks ++ [(e.now, i)]⟩, ?_, ?_, h.handed, ?_, fun v' hv' => ?_, ?_,
    fun v' hv' => hnow ▸ h.past v' hv', fun v' hv' => ?_⟩
  · rw [h.arrived, hbefore, hloop, hnow, List.map_cons, List.append_assoc]
    rfl
  · rw [h.taken, List.flatMap_append, List.flatMap_append, List.append_assoc]
    simp only [Option.toList_some, List.flatMap_cons, List.flatMap_nil, List.append_nil]
  · rw [hloop, Option.map_some, List.map_append]
    rfl
  · rcases List.mem_append.1 hv' with hv' | hv'
    · exact h.fits v' (List.mem_append_left _ hv')
    · obtain rfl := List.mem_singleton.1 hv'
      obtain ⟨j, others, hfirst⟩ := hfits.first
      refine ⟨⟨j, others ++ [(e.now, i)], by rw [hfirst]; rfl⟩, fun x hx => ?_⟩
      rcases List.mem_append.1 hx with hx | hx
      · exact hfits.times x hx
      · obtain rfl := List.mem_singleton.1 hx
        exact ⟨hopened, hlt⟩
  · obtain ⟨hhauls, -, happart⟩ := List.pairwise_append.1 h.apart
    refine List.pairwise_append.2 ⟨hhauls, List.pairwise_singleton _ _, fun v₁ hv₁ v₂ hv₂ => ?_⟩
    obtain rfl := List.mem_singleton.1 hv₂
    exact happart v₁ hv₁ v (List.mem_singleton_self v)
  · cases hv'
    exact ⟨hnow ▸ hopened, hnow ▸ (h.present v rfl).2⟩

/-- The window ends. -/
theorem closes (h : Logged stage window k e hauls current) {w : OpenWindow} {queue : List Nat}
    (hbefore : e.loop stage = ⟨queue, some w⟩) (hle : w.deadline ≤ e.now)
    (hloop : e'.loop stage = ⟨queue, none⟩) (hhanding : handing stage e e' = [w.members])
    (hnow : e'.now = e.now) :
    Logged stage window (k.note stage e e') e' (hauls ++ current.toList) none := by
  rw [k.note_hand (by rw [hbefore, hloop]) hhanding]
  obtain ⟨v, rfl, rfl⟩ := h.exists_current hbefore
  -- the clock has not passed the end of the window
  have hends : e.now = v.ends window := Nat.le_antisymm (h.present v rfl).2 hle
  have hall : hauls ++ (some v).toList ++ (none : Option Haul).toList = hauls ++ (some v).toList :=
    List.append_nil _
  refine ⟨?_, ?_, ?_, ?_, hall.symm ▸ h.fits, hall.symm ▸ h.apart, fun v' hv' => ?_,
    fun v' hv' => by cases hv'⟩
  · rw [h.arrived, hbefore, hloop, hnow]
  · rw [hall]
    exact h.taken
  · rw [h.handed, hends, List.map_append]
    rfl
  · rw [hloop]
    rfl
  · rw [hnow]
    rcases List.mem_append.1 hv' with hv' | hv'
    · exact h.past v' hv'
    · obtain rfl := List.mem_singleton.1 hv'
      exact hle

/-- **One step.** -/
theorem stir (h : Logged stage window k e hauls current) (hpos : 0 < window.ticks)
    (hs : Stir stage window e e') (hp : Punctual stage e e') :
    ∃ hauls' current', Logged stage window (k.note stage e e') e' hauls' current' := by
  cases hs with
  | arrive new hloop hhanding hnow hnew => exact ⟨hauls, current, h.arrive hloop hhanding hnow hnew hp⟩
  | opens i rest hbefore hloop hhanding hnow =>
    exact ⟨hauls, _, h.opens hpos hbefore hloop hhanding hnow⟩
  | joins w i rest hbefore hlt hloop hhanding hnow =>
    exact ⟨hauls, h.joins hbefore hlt hloop hhanding hnow⟩
  | closes w queue hbefore hle hloop hhanding hnow =>
    exact ⟨_, none, h.closes hbefore hle hloop hhanding hnow⟩

end Logged

/-- **A whole run.** -/
theorem Logbook.logged (h : Logbook env drift blocks stage k e) (hb : ∀ s, (blocks s).Proper)
    (hw : (blocks stage).window = some window) (hpos : 0 < window.ticks) (hc : e.cancelled = false) :
    ∃ hauls current, Logged stage window k e hauls current := by
  induction h with
  | start world => exact ⟨[], none, .start blocks world⟩
  | step h hs hp ih =>
    have hc' := hs.frame.2.1 hc
    obtain ⟨hauls, current, hlogged⟩ := ih hc'
    have hstir := hs.stir (h.reachable.ledger hb hc') hc' (h.reachable.blocks_eq ▸ hw)
    exact hlogged.stir hpos hstir hp

/-! ## What is in a window -/

section

variable {v : Haul} {l : List (Moment × Nat)}

theorem within_of_times (h : ∀ x ∈ l, v.opened ≤ x.1 ∧ x.1 < v.ends window) :
    window.within v.opened l = l := by
  refine List.filter_eq_self.2 fun x hx => decide_eq_true ⟨(h x hx).1, ?_⟩
  exact Duration.lt_add_ticks_iff.1 (h x hx).2

theorem within_of_before (h : ∀ x ∈ l, x.1 < v.opened) : window.within v.opened l = [] :=
  List.filter_eq_nil_iff.2 fun x hx hwithin =>
    Nat.not_le.2 (h x hx) (of_decide_eq_true hwithin).1

theorem within_of_after (h : ∀ x ∈ l, v.ends window ≤ x.1) : window.within v.opened l = [] :=
  List.filter_eq_nil_iff.2 fun x hx hwithin =>
    Nat.not_lt.2 (h x hx) (Duration.lt_add_ticks_iff.2 (of_decide_eq_true hwithin).2)

theorem within_append (opened : Moment) (l l' : List (Moment × Nat)) :
    window.within opened (l ++ l') = window.within opened l ++ window.within opened l' :=
  List.filter_append l l'

/-- Of all tasks that windows hold which are open one after the other, those that were taken while a
window was open are its own. -/
theorem within_flatMap {vs : List Haul} (hfits : ∀ v ∈ vs, v.Fits window)
    (hapart : vs.Pairwise fun v v' => v.ends window ≤ v'.opened) (hv : v ∈ vs) :
    window.within v.opened (vs.flatMap Haul.tasks) = v.tasks := by
  obtain ⟨before, after, rfl⟩ := List.append_of_mem hv
  obtain ⟨-, hafter, hbefore⟩ := List.pairwise_append.1 hapart
  have hearlier : ∀ x ∈ before.flatMap Haul.tasks, x.1 < v.opened := fun x hx => by
    obtain ⟨u, hu, hxu⟩ := List.mem_flatMap.1 hx
    have htimes := (hfits u (List.mem_append_left _ hu)).times x hxu
    exact Nat.lt_of_lt_of_le htimes.2 (hbefore u hu v List.mem_cons_self)
  have hlater : ∀ x ∈ after.flatMap Haul.tasks, v.ends window ≤ x.1 := fun x hx => by
    obtain ⟨u, hu, hxu⟩ := List.mem_flatMap.1 hx
    have htimes := (hfits u (List.mem_append_right _ (List.mem_cons_of_mem _ hu))).times x hxu
    exact Nat.le_trans (List.rel_of_pairwise_cons hafter hu) htimes.1
  rw [List.flatMap_append, List.flatMap_cons, within_append, within_append, within_of_before hearlier,
    within_of_times (hfits v hv).times, within_of_after hlater, List.append_nil, List.nil_append]

end

/-- Tasks are gathered as they should be: they are taken when they arrive, and handed over in the order
in which they arrived, and each window that has ended was handed over at its end, with what had arrived
while it was open.  It was opened by the first of them, and the windows do not overlap. -/
structure Gathers (stage : Stage) (window : Duration) (k : Intake) (e : Engine σ) : Prop where
  order : k.handed.flatMap Prod.snd ++ e.line stage = k.arrived.map Prod.snd
  taken : k.arrived = k.taken ++ (e.loop stage).queue.map (Prod.mk e.now)
  windows : ∃ opened : List Moment, opened.Pairwise (fun a b => a + window.ticks ≤ b) ∧
    (∀ a ∈ opened, ∃ i rest, window.within a k.arrived = (a, i) :: rest) ∧
    k.handed = opened.map fun a => (a + window.ticks, (window.within a k.arrived).map Prod.snd)
  current : ∀ w ∈ (e.loop stage).gathering, ∃ a,
    (∃ i rest, window.within a k.taken = (a, i) :: rest) ∧
    w = ⟨(window.within a k.taken).map Prod.snd, a + window.ticks⟩ ∧ e.now ≤ w.deadline

theorem Logged.gathers {hauls : List Haul} {current : Option Haul}
    (h : Logged stage window k e hauls current) : Gathers stage window k e where
  taken := h.arrived
  order := by
    have hmembers : (e.loop stage).members = (current.toList.flatMap Haul.tasks).map Prod.snd := by
      rw [Loop.members, h.gathering]
      cases current with
      | none => rfl
      | some v => simp
    have hqueue : ((e.loop stage).queue.map (Prod.mk e.now)).map Prod.snd = (e.loop stage).queue := by
      rw [List.map_map]
      exact List.map_id _
    have hhanded : k.handed.flatMap Prod.snd = (hauls.flatMap Haul.tasks).map Prod.snd := by
      rw [h.handed, List.flatMap_map, List.map_flatMap]
    rw [line, h.arrived, h.taken, List.map_append, hqueue, List.flatMap_append, List.map_append, hhanded,
      hmembers, List.append_assoc]
  windows := by
    have hwithin : ∀ v ∈ hauls, window.within v.opened k.arrived = v.tasks := fun v hv => by
      have hqueue : ∀ x ∈ (e.loop stage).queue.map (Prod.mk e.now), v.ends window ≤ x.1 := fun x hx => by
        obtain ⟨i, -, rfl⟩ := List.mem_map.1 hx
        exact h.past v hv
      rw [h.arrived, h.taken, within_append, within_flatMap h.fits h.apart (List.mem_append_left _ hv),
        within_of_after hqueue, List.append_nil]
    refine ⟨hauls.map Haul.opened, ?_, fun a ha => ?_, ?_⟩
    · exact List.pairwise_map.2 (List.pairwise_append.1 h.apart).1
    · obtain ⟨v, hv, rfl⟩ := List.mem_map.1 ha
      rw [hwithin v hv]
      exact (h.fits v (List.mem_append_left _ hv)).first
    · rw [h.handed, List.map_map]
      refine List.map_congr_left fun v hv => ?_
      rw [Function.comp_apply, hwithin v hv]
      rfl
  current w hw := by
    rw [h.gathering] at hw
    obtain ⟨v, rfl, rfl⟩ := Option.map_eq_some_iff.1 hw
    have hv : v ∈ hauls ++ (some v).toList := List.mem_append_right _ (List.mem_singleton_self v)
    have hwithin : window.within v.opened k.taken = v.tasks := by
      rw [h.taken, within_flatMap h.fits h.apart hv]
    refine ⟨v.opened, ?_, ?_, (h.present v rfl).2⟩
    · rw [hwithin]
      exact (h.fits v hv).first
    · rw [hwithin]
      rfl

/-! ## Turns of the loop -/

/-- Between two states, batches of tasks are handed over in turn, out of what a stage had in its window
and its queue. -/
structure Passes (stage : Stage) (e e' : Engine σ) (batches : List (List Nat)) : Prop where
  started : ∃ new : List Handler, e'.handlers.toList = e.handlers.toList ++ new ∧
    new.map (fun h => (h.stage, h.promises.map Promise.task)) = batches.map (Prod.mk stage)
  line : batches.flatten ++ e'.line stage = e.line stage
  nonempty : [] ∉ batches
  /-- What the window has comes first, and stays together. -/
  first : ∀ w ∈ (e.loop stage).gathering, ∃ more,
    (batches = [] ∧ (e'.loop stage).gathering = some { w with members := w.members ++ more }) ∨
      ∃ later, batches = (w.members ++ more) :: later
  now : e'.now = e.now
  tasks : e'.tasks = e.tasks

namespace Passes

variable {batches batches' : List (List Nat)}

theorem handing_eq (h : Passes stage e e' batches) : handing stage e e' = batches := by
  obtain ⟨new, hhandlers, hnew⟩ := h.started
  have hstage : ∀ x ∈ new, (x.stage == stage) = true := fun x hx => by
    have hmem := List.mem_map_of_mem (f := fun h => (h.stage, h.promises.map Promise.task)) hx
    rw [hnew] at hmem
    obtain ⟨b, -, hb⟩ := List.mem_map.1 hmem
    exact beq_iff_eq.2 (congrArg Prod.fst hb).symm
  have htasks := congrArg (List.map Prod.snd) hnew
  rw [List.map_map, List.map_map] at htasks
  rw [handing, hhandlers, ← Array.length_toList, List.drop_left, List.filter_eq_self.2 hstage]
  exact htasks.trans (List.map_id batches)

theorem of_eq (loops : e'.loops = e.loops) (handlers : e'.handlers = e.handlers)
    (now : e'.now = e.now) (tasks : e'.tasks = e.tasks) : Passes stage e e' [] where
  started := ⟨[], by rw [handlers, List.append_nil], rfl⟩
  line := by rw [Engine.line, Engine.line, loop, loop, loops]; rfl
  nonempty := List.not_mem_nil
  first w hw := ⟨[], .inl ⟨rfl, by rw [loop, loops, List.append_nil]; exact hw⟩⟩
  now := now
  tasks := tasks

theorem trans (h : Passes stage e e' batches) (h' : Passes stage e' e'' batches') :
    Passes stage e e'' (batches ++ batches') where
  started := by
    obtain ⟨new, hhandlers, hnew⟩ := h.started
    obtain ⟨new', hhandlers', hnew'⟩ := h'.started
    refine ⟨new ++ new', ?_, ?_⟩
    · rw [hhandlers', hhandlers, List.append_assoc]
    · rw [List.map_append, List.map_append, hnew, hnew']
  line := by rw [List.flatten_append, List.append_assoc, h'.line, h.line]
  nonempty hmem := (List.mem_append.1 hmem).elim h.nonempty h'.nonempty
  first w hw := by
    obtain ⟨more, ⟨rfl, hg⟩ | ⟨later, rfl⟩⟩ := h.first w hw
    · obtain ⟨more', hfirst⟩ := h'.first _ hg
      simp only [List.append_assoc] at hfirst
      exact ⟨more ++ more', hfirst⟩
    · exact ⟨more, .inr ⟨later ++ batches', rfl⟩⟩
  now := h'.now.trans h.now
  tasks := h'.tasks.trans h.tasks

/-- A task is taken out of the queue. -/
theorem take {i : Nat} {rest : List Nat} (deadline : Moment)
    (hq : (e.loop stage).queue = i :: rest)
    (hfirst : ∀ w ∈ (e.loop stage).gathering, w.deadline = deadline) :
    Passes stage e (e.setLoop stage ⟨rest, some ⟨(e.loop stage).members ++ [i], deadline⟩⟩) [] where
  started := ⟨[], (List.append_nil _).symm, rfl⟩
  line := by
    rw [Engine.line, Engine.line, loop_setLoop, if_pos rfl, hq]
    exact List.append_assoc _ [i] rest
  nonempty := List.not_mem_nil
  first w hw := by
    refine ⟨[i], .inl ⟨rfl, ?_⟩⟩
    rw [loop_setLoop, if_pos rfl, Loop.members, hw, ← hfirst w hw]
    rfl
  now := rfl
  tasks := rfl

/-- What the window has is handed over. -/
theorem hand {w : OpenWindow} (hg : (e.loop stage).gathering = some w) (hne : w.members ≠ [])
    (hm : ∀ i ∈ w.members, i < e.tasks.size) :
    Passes stage e ((e.setLoop stage { e.loop stage with gathering := none }).handWindow stage w.members)
      [w.members] where
  started := by
    obtain ⟨x, hpush, rfl, htasks⟩ := handlers_handWindow stage { e.loop stage with gathering := none } hm
    refine ⟨[x], (congrArg Array.toList hpush).trans Array.toList_push, ?_⟩
    rw [List.map_singleton, htasks]
    rfl
  line := by
    have hloop : ((e.setLoop stage { e.loop stage with gathering := none }).handWindow stage
        w.members).loop stage = { e.loop stage with gathering := none } :=
      (loop_handWindow _ stage stage w.members).trans ((loop_setLoop e stage stage _).trans (if_pos rfl))
    rw [Engine.line, Engine.line, hloop, Loop.members, Loop.members, hg]
    simp
  nonempty hmem := hne (List.mem_singleton.1 hmem).symm
  first w' hw' := by
    rw [hg] at hw'
    cases hw'
    exact ⟨[], .inr ⟨[], by rw [List.append_nil]⟩⟩
  now := by rw [handWindow_eq]; rfl
  tasks := by rw [handWindow_eq]; rfl

end Passes

/-- The tasks that a stage has exist, and its window is not empty. -/
structure Ready (stage : Stage) (e : Engine σ) : Prop where
  exist : ∀ i ∈ e.line stage, i < e.tasks.size
  nonempty : ∀ w ∈ (e.loop stage).gathering, w.members ≠ []

theorem Ready.exist_members (h : Ready stage e) {w : OpenWindow}
    (hg : (e.loop stage).gathering = some w) : ∀ i ∈ w.members, i < e.tasks.size := fun i hi =>
  h.exist i (mem_line hg hi)

theorem Ready.of_passes (h : Ready stage e) {batches : List (List Nat)} (hp : Passes stage e e' batches)
    (hne : ∀ w ∈ (e'.loop stage).gathering, w.members ≠ []) : Ready stage e' where
  exist i hi := by
    rw [hp.tasks]
    exact h.exist i (hp.line ▸ List.mem_append_right _ hi)
  nonempty := hne

/-- How much a stage has to do until it has handed everything over. -/
def toDo (stage : Stage) (e : Engine σ) : Nat :=
  2 * (e.loop stage).queue.length + (e.loop stage).gathering.toList.length

/-- A stage has passed batches on, and if its queue is closed, it has done so many things more or has
nothing left to do. -/
def PassesOn (stage : Stage) (closed : Bool) (budget : Nat) (e e' : Engine σ) : Prop :=
  ∃ batches, Passes stage e e' batches ∧ Ready stage e' ∧
    (closed = true → toDo stage e' ≤ toDo stage e - budget)

theorem Ready.stop (h : Ready stage e) {closed : Bool} (budget : Nat)
    (hdone : closed = true → toDo stage e = 0) : PassesOn stage closed budget e e :=
  ⟨[], .of_eq rfl rfl rfl rfl, h, fun hclosed => by rw [hdone hclosed]; exact Nat.zero_le _⟩

theorem Ready.next (h : Ready stage e) {closed : Bool} {budget : Nat} {batches : List (List Nat)}
    (hp : Passes stage e e' batches) (hne : ∀ w ∈ (e'.loop stage).gathering, w.members ≠ [])
    (hlt : toDo stage e' < toDo stage e)
    (hlater : Ready stage e' → PassesOn stage closed budget e' e'') :
    PassesOn stage closed (budget + 1) e e'' := by
  obtain ⟨later, hp', hready, hdo⟩ := hlater (h.of_passes hp hne)
  exact ⟨batches ++ later, hp.trans hp', hready, fun hclosed => by have := hdo hclosed; omega⟩

/-- **A turn of the loop** hands batches over that make up, with what is left, what the stage had. -/
theorem windowLoop_passes (window : Duration) (closed : Bool) (budget : Nat) (h : Ready stage e) :
    PassesOn stage closed budget e (windowLoop stage window closed budget e) := by
  induction budget generalizing e with
  | zero => exact ⟨[], .of_eq rfl rfl rfl rfl, ⟨h.exist, h.nonempty⟩, fun _ => Nat.le_refl _⟩
  | succ budget ih =>
    have hset : ∀ l : Loop, (e.setLoop stage l).loop stage = l := fun l =>
      (loop_setLoop e stage stage l).trans (if_pos rfl)
    unfold windowLoop
    simp only
    split
    · rename_i w hg
      -- the window is handed over
      have hhand := Passes.hand hg (h.nonempty w hg) (h.exist_members hg)
      have hloop := (loop_handWindow (e.setLoop stage { e.loop stage with gathering := none }) stage stage
        w.members).trans (hset _)
      have hfewer : toDo stage ((e.setLoop stage { e.loop stage with gathering := none }).handWindow stage
          w.members) < toDo stage e := by
        rw [toDo, toDo, hloop, hg]
        exact Nat.lt_succ_self _
      have hnone : ∀ w' ∈ (((e.setLoop stage { e.loop stage with gathering := none }).handWindow stage
          w.members).loop stage).gathering, w'.members ≠ [] := fun w' hw' => by
        rw [hloop] at hw'
        cases hw'
      split
      · exact h.next hhand hnone hfewer ih
      · split
        · rename_i hq
          split
          · refine h.next hhand hnone hfewer fun hready => hready.stop budget fun _ => ?_
            rw [toDo, hloop, hq]
            rfl
          · rename_i hopen
            exact h.stop _ fun hclosed => absurd hclosed hopen
        · -- a task joins the window
          rename_i index rest hq
          have htake := Passes.take w.deadline hq fun w' hw' => by
            rw [hg] at hw'
            cases hw'
            rfl
          rw [Loop.members, hg] at htake
          refine h.next htake (fun w' hw' => ?_) ?_ ih
          · rw [hset] at hw'
            cases hw'
            exact List.append_ne_nil_of_right_ne_nil _ (List.cons_ne_nil _ _)
          · rw [toDo, toDo, hset, hg, hq, List.length_cons]
            exact Nat.add_lt_add_right (Nat.mul_lt_mul_of_pos_left (Nat.lt_succ_self _) Nat.two_pos) 1
    · rename_i hg
      split
      · rename_i hq
        refine h.stop _ fun _ => ?_
        rw [toDo, hq, hg]
        rfl
      · -- a task opens a window
        rename_i index rest hq
        have htake := Passes.take (e.now + window.ticks) hq fun w hw => by
          rw [hg] at hw
          cases hw
        rw [Loop.members, hg] at htake
        have hne : ∀ w ∈ ((e.setLoop stage ⟨rest, some ⟨[index], e.now + window.ticks⟩⟩).loop
            stage).gathering, w.members ≠ [] := fun w hw => by
          rw [hset] at hw
          cases hw
          exact List.cons_ne_nil _ _
        have hfewer : toDo stage (e.setLoop stage ⟨rest, some ⟨[index], e.now + window.ticks⟩⟩) <
            toDo stage e := by
          rw [toDo, toDo, hset, hg, hq, List.length_cons]
          exact Nat.lt_succ_self _
        split
        · exact h.next htake hne hfewer ih
        · have hwoken : Passes stage e ((e.setLoop stage ⟨rest, some ⟨[index], e.now + window.ticks⟩⟩).wakeAt
              (e.now + window.ticks) (.loop stage)) [] := htake.trans (.of_eq rfl rfl rfl rfl)
          exact h.next hwoken hne hfewer ih

theorem windowLoop_due (closed : Bool) (budget : Nat) {w : OpenWindow}
    (hg : (e.loop stage).gathering = some w) (hle : w.deadline ≤ e.now) :
    windowLoop stage window closed (budget + 1) e = windowLoop stage window closed budget
      ((e.setLoop stage { e.loop stage with gathering := none }).handWindow stage w.members) := by
  rw [windowLoop]
  simp only [hg, if_pos hle]

/-- A stage whose window is due hands it over as soon as its loop is given a turn. -/
theorem loopTurn_hands (h : Ready stage e) (hc : e.cancelled = false)
    (hw : (e.blocks stage).window = some window) {w : OpenWindow}
    (hg : (e.loop stage).gathering = some w) (hle : w.deadline ≤ e.now) :
    ∃ later, handing stage e (e.loopTurn stage) = w.members :: later := by
  have hhand := Passes.hand hg (h.nonempty w hg) (h.exist_members hg)
  have hready := h.of_passes hhand fun w' hw' => by
    rw [loop_handWindow, loop_setLoop, if_pos rfl] at hw'
    cases hw'
  have hturn : e.loopTurn stage = windowLoop stage window false turnBudget e := by
    rw [loopTurn, if_neg (by rw [hc]; exact Bool.false_ne_true), hw]
  have hdue : e.loopTurn stage = _ := hturn.trans (windowLoop_due false 127 hg hle)
  obtain ⟨later, hlater, -⟩ := windowLoop_passes window false 127 hready
  exact ⟨later, hdue ▸ (hhand.trans hlater).handing_eq⟩

theorem loop_of_toDo (h : toDo stage e = 0) : e.loop stage = ⟨[], none⟩ := by
  obtain ⟨hqueue, hwindow⟩ := Nat.add_eq_zero_iff.1 h
  have hq : (e.loop stage).queue = [] :=
    List.eq_nil_of_length_eq_zero ((Nat.mul_eq_zero.1 hqueue).resolve_left two_ne_zero)
  have hg : (e.loop stage).gathering = none :=
    Option.toList_eq_nil_iff.1 (List.eq_nil_of_length_eq_zero hwindow)
  rw [← hq, ← hg]

/-- **Once the queue of a stage is closed**, its loop hands over all that the stage has. -/
theorem windowLoop_closed (window : Duration) (h : Ready stage e) {turns : Nat} (hle : toDo stage e ≤ turns) :
    ∃ batches, Passes stage e ((windowLoop stage window true turnBudget)^[turns] e) batches ∧
      ((windowLoop stage window true turnBudget)^[turns] e).loop stage = ⟨[], none⟩ := by
  induction turns generalizing e with
  | zero => exact ⟨[], .of_eq rfl rfl rfl rfl, loop_of_toDo (Nat.eq_zero_of_le_zero hle)⟩
  | succ turns ih =>
    obtain ⟨batches, hp, hready, hdo⟩ := windowLoop_passes window true turnBudget h
    have hless : toDo stage (windowLoop stage window true turnBudget e) ≤ turns := by
      have hturn := hdo rfl
      have hbudget : 1 ≤ turnBudget := by decide
      omega
    obtain ⟨later, hlater, hend⟩ := ih hready hless
    exact ⟨batches ++ later, hp.trans hlater, hend⟩

/-! ## The result -/

/-- From one state to another, a stage hands everything over that it had, at once, and has nothing any
more.  What was in its window stays together. -/
structure HandsAll (stage : Stage) (e e' : Engine σ) : Prop where
  all : (handing stage e e').flatten = e.line stage
  nonempty : [] ∉ handing stage e e'
  window : ∀ w ∈ (e.loop stage).gathering, ∃ more later,
    handing stage e e' = (w.members ++ more) :: later
  empty : e'.loop stage = ⟨[], none⟩
  now : e'.now = e.now

theorem Passes.handsAll {batches : List (List Nat)} (h : Passes stage e e' batches)
    (hend : e'.loop stage = ⟨[], none⟩) : HandsAll stage e e' where
  all := by
    rw [h.handing_eq, ← h.line, Engine.line, hend]
    exact (List.append_nil _).symm
  nonempty := h.handing_eq ▸ h.nonempty
  window w hw := by
    obtain ⟨more, ⟨-, hg⟩ | ⟨later, hlater⟩⟩ := h.first w hw
    · rw [hend] at hg
      cases hg
    · exact ⟨more, later, h.handing_eq.trans hlater⟩
  empty := hend
  now := h.now

/-- **A window holds what arrives before its end, and nothing else.**  Whenever tasks arrive at a stage
with a window, and whatever else an engine does that was not told to stop, they are handed over in the
order in which they arrived, window by window, and each window when it ends.  If the queue of the stage
is closed, what it still has is handed over at once. -/
theorem gathers_in_windows (hb : ∀ s, (blocks s).Proper) (hw : (blocks stage).window = some window)
    (hpos : 0 < window.nanos) (h : Logbook env drift blocks stage k e) (hc : e.cancelled = false) :
    Gathers stage window k e ∧
      (∀ w ∈ (e.loop stage).gathering, w.deadline ≤ e.now →
        ∃ later, handing stage e (e.loopTurn stage) = w.members :: later) ∧
      ∀ turns, 2 * (e.loop stage).queue.length + 1 ≤ turns →
        HandsAll stage e ((windowLoop stage window true turnBudget)^[turns] e) := by
  have he := h.reachable
  have hticks : 0 < window.ticks := by
    rw [Duration.ticks]
    omega
  have hready : Ready stage e :=
    ⟨fun i hi => (he.ledger hb hc).lt_of_mem_line hi, fun w hg => he.window_ne_nil stage w hg⟩
  obtain ⟨hauls, current, hlogged⟩ := h.logged hb hw hticks hc
  refine ⟨hlogged.gathers, fun w hg hle => loopTurn_hands hready hc (he.blocks_eq ▸ hw) hg hle,
    fun turns hle => ?_⟩
  have hdo : toDo stage e ≤ turns :=
    Nat.le_trans (Nat.add_le_add_left Option.length_toList_le _) hle
  obtain ⟨batches, hp, hend⟩ := windowLoop_closed window hready hdo
  exact hp.handsAll hend

/-- A block that lets the tasks of a window of ten milliseconds through. -/
def tenMillis : Block := { Block.passing with window := some (.ofMillis 10) }

/-- Two tasks arrive before a window ends, one arrives just then, and another while the next window is
open. -/
def fourPings : List Occasion :=
  let task := { ping with bindable := false }
  [.submit task, .work, .openWindow .initial, .pass 4 2, .submit task, .work, .gather .initial, .pass 10 3,
    .submit task, .work, .closeWindow .initial, .openWindow .initial, .pass 13 4, .submit task, .work]

theorem gathers_in_windows_pinged :
    let e₀ := Engine.start (fun _ => tenMillis) ()
    let e := e₀.play .crashing fourPings
    let k := Intake.along .crashing .initial ⟨[], [], []⟩ e₀ fourPings
    k.arrived = [(0, 0), (4, 1), (10, 2), (13, 3)] ∧ k.handed = [(10, [0, 1])] ∧
      Gathers .initial (.ofMillis 10) k e ∧
      HandsAll .initial e ((windowLoop .initial (.ofMillis 10) true turnBudget)^[3] e) ∧
      e.line .initial = [2, 3] := by
  intro e₀ e k
  have hlog : Logbook .crashing Eq (fun _ => tenMillis) .initial k e :=
    (Logbook.start ()).play (by decide +kernel)
  have hproper : tenMillis.Proper := ⟨Block.proper_passing.onTask, Block.proper_passing.onWindow⟩
  obtain ⟨hgathers, -, hclosed⟩ :=
    gathers_in_windows (fun _ => hproper) rfl (by decide) hlog (by decide +kernel)
  exact ⟨by decide +kernel, by decide +kernel, hgathers, hclosed 3 (by decide +kernel),
    by decide +kernel⟩

end Engine
end RpcFlow
