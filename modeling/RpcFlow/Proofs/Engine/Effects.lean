import RpcFlow.Proofs.Engine.Finishing
import RpcFlow.Proofs.Engine.History

/-!
# What a step does to tasks

Seen from the tasks, a step does one of four things: a promise is used, a verdict is delivered, a task
is created, or no task changes in anything but its place.  An invariant about tasks is proved for these
four instead of for every step; likewise an invariant about handlers, of which a step leaves most alone,
carries out an instruction of one, or starts a new one.

* `Engine.ahead` — the stages that lie ahead of a task, and `Engine.Effect`, what a step may do.
* `Engine.Step.effect`, `Engine.Step.handler_back` — that it does nothing else; `Engine.Fate` — what it
  does to one task.
* `Engine.Compliant` — every handler keeps to the contract of its stage.
* `Engine.Signed` — every recorded verdict was given by a promise that was used as a rule allows.
-/

set_option autoImplicit false

namespace RpcFlow

/-- The stages that a task is going to, if a command is about that task. -/
def Command.next (i : Nat) : Command → List Stage
  | submit .. => []
  | transition j _ verdict => if j = i then verdict.next else []

/-- What a handler, or its supervisor, is about to do with a promise. -/
inductive Handler.AboutTo (h : Handler) (p : Promise) : Move → Prop
  | complete (m : Move) (k : Bool → Routine) : h.state = .running (.complete p m k) →
    h.AboutTo p m
  | rescue (ending : Ending) (error : CallError) : h.state = .ended ending →
    ending.error? = some error → h.AboutTo p (.fail error)

/-- What a handler that keeps to a contract is about to do with a promise is allowed. -/
theorem Handler.Keeps.allows {C : Contract} {x : Handler} {p : Promise} {m : Move} (h : x.Keeps C)
    (ha : x.AboutTo p m) :
    C.uses p m ∨ ∃ ending error, C.ends ending ∧ ending.error? = some error ∧
      x.state = .ended ending ∧ m = .fail error := by
  cases ha with
  | complete m k hr =>
    rw [Handler.Keeps, hr] at h
    exact .inl h.1.2
  | rescue ending error hr herr =>
    rw [Handler.Keeps, hr] at h
    rcases h with rfl | hends
    · exact absurd herr (by simp [Ending.error?])
    · exact .inr ⟨ending, error, hends, herr, hr, rfl⟩

/-- Two states of a task with the same request and the same verdicts. -/
structure Task.Alike (t t' : Task) : Prop where
  descriptor : t'.descriptor = t.descriptor
  results : t'.results.items = t.results.items
  delivered : t'.delivered.items = t.delivered.items

theorem Task.Alike.refl (t : Task) : t.Alike t := ⟨rfl, rfl, rfl⟩

namespace Engine

variable {σ : Type}

/-! ## The stages ahead -/

/-- The stages that a task is going to: the worker has yet to be told. -/
def upcoming (e : Engine σ) (i : Nat) : List Stage := e.inbox.flatMap (Command.next i)

/-- The stages that lie ahead of a task: where it waits, where it is handled, and where it is going
to. -/
def ahead (e : Engine σ) (i : Nat) : List Stage :=
  e.queued i ++ e.gathered i ++ e.pending i ++ e.upcoming i

variable {env : Environment σ} {drift : σ → σ → Prop} {e e' : Engine σ}

/-- A task is held by the stages ahead of it, except that the worker has yet to be told of some. -/
theorem Ledger.count_ahead (h : Ledger e) (i : Nat) (s : Stage) :
    (e.ahead i).count s + (e.leaving i).count s = (e.holding i).count s + (e.upcoming i).count s := by
  have hp := (h.perm i).count_eq s
  simp only [outstanding, ahead, List.count_append] at hp ⊢
  omega

/-- If no command is about a task, then it is not going anywhere. -/
theorem upcoming_of_leaving {i : Nat} (h : e.leaving i = []) : e.upcoming i = [] := by
  rw [leaving, List.filterMap_eq_nil_iff] at h
  rw [upcoming, List.flatMap_eq_nil_iff]
  intro c hc
  have hs := h c hc
  cases c with
  | submit d reply => rfl
  | transition j source verdict =>
    rw [Command.source?] at hs
    rw [Command.next, if_neg]
    rintro rfl
    rw [if_pos rfl] at hs
    exact absurd hs (Option.some_ne_none source)

/-- Nothing lies ahead of a task that no stage holds. -/
theorem Ledger.ahead_of_held (h : Ledger e) {i : Nat} {t : Task} (ht : e.tasks[i]? = some t)
    (hheld : t.holding = []) : e.ahead i = [] := by
  have hperm := h.perm i
  rw [holding_of_some ht, hheld] at hperm
  have hout := hperm.symm.eq_nil
  simp only [outstanding, List.append_eq_nil_iff] at hout
  obtain ⟨⟨⟨hq, hg⟩, hpend⟩, hleave⟩ := hout
  rw [ahead, hq, hg, hpend, upcoming_of_leaving hleave]
  rfl

/-- The second engine has the same commands about every task. -/
structure SameCommands (e e' : Engine σ) : Prop where
  leaving : ∀ i, e'.leaving i = e.leaving i
  upcoming : ∀ i, e'.upcoming i = e.upcoming i

theorem SameCommands.of_inbox (h : e'.inbox = e.inbox) : SameCommands e e' :=
  ⟨fun i => by rw [Engine.leaving, Engine.leaving, h],
    fun i => by rw [Engine.upcoming, Engine.upcoming, h]⟩

/-- As long as no stage hears of a task, the same stages lie ahead. -/
theorem Ledger.ahead_perm (h : Ledger e) (h' : Ledger e') (commands : SameCommands e e') {i : Nat}
    (holding : e'.holding i = e.holding i) : (e'.ahead i).Perm (e.ahead i) := by
  refine List.perm_iff_count.2 fun s => ?_
  have hb := h.count_ahead i s
  have ha := h'.count_ahead i s
  rw [holding, commands.leaving, commands.upcoming] at ha
  omega

theorem mem_pending {i : Nat} {p : Promise} (hp : p ∈ e.issued) (hi : p.task = i)
    (ho : e.isOpen p = true) : p.stage ∈ e.pending i :=
  List.mem_map.2 ⟨p, List.mem_filter.2 ⟨hp, by simp [hi, ho]⟩, rfl⟩

/-- The stage of an open promise lies ahead. -/
theorem mem_ahead {p : Promise} (hp : p ∈ e.issued) (ho : e.isOpen p = true) :
    p.stage ∈ e.ahead p.task :=
  List.mem_append_left _ (List.mem_append_right _ (mem_pending hp rfl ho))

/-- Two open promises of a task are two stages ahead. -/
theorem two_le_ahead {p q : Promise} (hp : p ∈ e.issued) (hq : q ∈ e.issued)
    (htask : p.task = q.task) (hpo : e.isOpen p = true) (hqo : e.isOpen q = true) (hne : p ≠ q) :
    2 ≤ (e.ahead q.task).length := by
  have hlen : 2 ≤ (e.pending q.task).length := by
    rw [pending, List.length_map]
    have hmp : p ∈ e.issued.filter fun x => x.task == q.task && e.isOpen x :=
      List.mem_filter.2 ⟨hp, by simp [htask, hpo]⟩
    have hmq : q ∈ e.issued.filter fun x => x.task == q.task && e.isOpen x :=
      List.mem_filter.2 ⟨hq, by simp [hqo]⟩
    generalize e.issued.filter (fun x => x.task == q.task && e.isOpen x) = l at hmp hmq
    cases l with
    | nil => exact absurd hmp List.not_mem_nil
    | cons a l =>
      cases l with
      | nil => exact absurd ((List.mem_singleton.1 hmp).trans (List.mem_singleton.1 hmq).symm) hne
      | cons b l => simp only [List.length_cons]; omega
  simp only [ahead, List.length_append]
  omega

/-! ## What a step does to tasks -/

/-- What a step may do to tasks and promises. -/
inductive Effect (e e' : Engine σ) : Prop
  /-- A promise is used. -/
  | use (index : Nat) (h : Handler) (p : Promise) (m : Move) (t : Task) :
    e.handlers[index]? = some h → p ∈ h.promises → h.AboutTo p m → e.isOpen p = true →
    e.tasks[p.task]? = some t →
    (∀ (i : Nat) (t' : Task), e'.tasks[i]? = some t' →
      if p.task = i then
        t'.descriptor = t.descriptor ∧ t'.results.items = t.results.items ++ [p.verdict m] ∧
          t'.delivered.items = t.delivered.items
      else e.tasks[i]? = some t') →
    e'.issued = e.issued →
    (∀ q, e'.isOpen q = if q.number = p.number then false else e.isOpen q) →
    (∀ i, (e'.ahead i).Perm
      (if p.task = i then (e.ahead i).erase p.stage ++ (p.verdict m).next else e.ahead i)) →
    Effect e e'
  /-- A verdict is delivered. -/
  | deliver (index : Nat) (h : Handler) (p : Promise) (v : Verdict) (k : Bool → Routine) (t : Task) :
    e.handlers[index]? = some h → h.state = .running (.deliver p v k) → p ∈ h.promises →
    e.tasks[p.task]? = some t →
    (∀ (i : Nat) (t' : Task), e'.tasks[i]? = some t' →
      if p.task = i then t' = (t.deliver v).1 else e.tasks[i]? = some t') →
    e'.issued = e.issued → e'.isOpen = e.isOpen → (∀ i, (e'.ahead i).Perm (e.ahead i)) →
    Effect e e'
  /-- A task is created. -/
  | create (d : Descriptor) :
    e'.tasks = e.tasks.push { Task.fresh e.nextTask e.now d with holding := [.initial] } →
    e'.issued = e.issued → e'.isOpen = e.isOpen →
    (∀ i, (e'.ahead i).Perm (if i = e.tasks.size then [.initial] else e.ahead i)) → Effect e e'
  /-- Tasks change their places only, and promises are made. -/
  | rest : (∀ (i : Nat) (t' : Task), e'.tasks[i]? = some t' →
      ∃ t, e.tasks[i]? = some t ∧ t.Alike t') →
    (∀ q ∈ e.issued, q ∈ e'.issued ∧ e'.isOpen q = e.isOpen q) →
    (∀ i, (e'.ahead i).Perm (e.ahead i)) → Effect e e'

namespace Effect

/-- Most steps do not touch tasks at all. -/
theorem of_eq (hl : Ledger e) (hl' : Ledger e') (tasks : e'.tasks = e.tasks)
    (used : e'.used = e.used) (issued : e'.issued = e.issued) (commands : SameCommands e e') :
    Effect e e' := by
  refine .rest (fun i t' ht' => ⟨t', tasks ▸ ht', .refl t'⟩) (fun q hq => ⟨issued ▸ hq, ?_⟩)
    fun i => hl.ahead_perm hl' commands ?_
  · rw [isOpen, isOpen, used]
  · rw [holding, holding, tasks]

/-- The use of a promise. -/
theorem of_complete (hl : Ledger e) (hl' : Ledger e') (hrun : e.stopped = false) {index : Nat}
    {h : Handler} {p : Promise} {m : Move} (hx : e.handlers[index]? = some h)
    (hp : p ∈ h.promises) (ha : h.AboutTo p m) (ho : e.isOpen p = true)
    (tasks : e'.tasks = (e.complete p m).2.tasks) (used : e'.used = (e.complete p m).2.used)
    (inbox : e'.inbox = (e.complete p m).2.inbox) (issued : e'.issued = e.issued) :
    Effect e e' := by
  have hpi : p ∈ e.issued := mem_issued hx hp
  obtain ⟨t, ht, hlive⟩ := hl.task_of_open hpi ho
  refine .use index h p m t hx hp ha ho ht ?_ issued ?_ ?_
  · intro i t' ht'
    rw [tasks, tasks_complete ho] at ht'
    split at ht'
    · rename_i hi
      rw [if_pos hi]
      obtain ⟨t₀, ht₀, rfl⟩ := Option.map_eq_some_iff.1 ht'
      rw [← hi, ht] at ht₀
      cases ht₀
      rw [Task.record_of_open hlive]
      exact ⟨rfl, rfl, rfl⟩
    · rename_i hi
      rw [if_neg hi]
      exact ht'
  · intro q
    rw [← isOpen_complete ho m q, isOpen, isOpen, used]
  · intro i
    have hinbox : e'.inbox = e.inbox ++ [.transition p.task p.stage (p.verdict m)] := by
      rw [inbox, complete_of_isOpen ho]
      simp only [hrun, Bool.false_eq_true, if_false]
    have hholding : e'.holding i = e.holding i := by
      rw [holding, tasks]
      exact holding_complete m i
    refine List.perm_iff_count.2 fun s => ?_
    have hb := hl.count_ahead i s
    have ha := hl'.count_ahead i s
    simp only [hholding, leaving, upcoming, hinbox, List.filterMap_append, List.flatMap_append,
      List.count_append] at ha
    simp only [leaving, upcoming] at hb
    by_cases hi : p.task = i
    · have hpos : 0 < (e.ahead i).count p.stage :=
        List.count_pos_iff.2 (hi ▸ mem_ahead hpi ho)
      rw [if_pos hi, List.count_append, List.count_erase]
      simp only [List.filterMap_cons, Command.source?, if_pos hi, List.filterMap_nil,
        List.flatMap_cons, Command.next, List.flatMap_nil, List.append_nil, List.count_cons,
        List.count_nil] at ha
      by_cases hs : p.stage = s
      · simp only [hs, beq_self_eq_true, if_true] at ha hpos ⊢
        omega
      · simp only [beq_eq_false_iff_ne.2 hs, Bool.false_eq_true, if_false] at ha ⊢
        omega
    · rw [if_neg hi]
      simp only [List.filterMap_cons, Command.source?, if_neg hi, List.filterMap_nil,
        List.flatMap_cons, Command.next, List.flatMap_nil, List.append_nil, List.count_nil] at ha
      omega

/-- The delivery of a verdict. -/
theorem of_deliver (hl : Ledger e) (hl' : Ledger e') {index : Nat} {h : Handler} {p : Promise}
    {v : Verdict} {k : Bool → Routine} (hx : e.handlers[index]? = some h)
    (hr : h.state = .running (.deliver p v k)) (hp : p ∈ h.promises)
    (tasks : e'.tasks = (e.deliver p.task v).2.tasks) (used : e'.used = e.used)
    (issued : e'.issued = e.issued) (commands : SameCommands e e') : Effect e e' := by
  obtain ⟨t, ht, -⟩ := hl.promised p (mem_issued hx hp)
  refine .deliver index h p v k t hx hr hp ht ?_ issued (by funext q; rw [isOpen, isOpen, used]) ?_
  · intro i t' ht'
    rw [tasks, tasks_deliver] at ht'
    split at ht'
    · rename_i hi
      obtain ⟨t₀, ht₀, rfl⟩ := Option.map_eq_some_iff.1 ht'
      rw [← hi, ht] at ht₀
      cases ht₀
      rw [if_pos hi]
    · rename_i hi
      rw [if_neg hi]
      exact ht'
  · intro i
    refine hl.ahead_perm hl' commands ?_
    rw [holding, tasks]
    exact holding_deliver e p.task v i

/-- A task is moved by the worker. -/
theorem of_move (hl : Ledger e) {i : Nat} {source : Stage} {v : Verdict} {rest : List Command}
    (hi : e.inbox = .transition i source v :: rest) :
    Effect e ({ e with inbox := rest }.place i (some source) v.next) := by
  have hl' := hl.move hi
  obtain ⟨t, ht, hmem, -⟩ := hl.task_of_transition hi
  have ht₀ : ({ e with inbox := rest } : Engine σ).tasks[i]? = some t := ht
  have htasks := fun j => tasks_place (e := { e with inbox := rest }) (some source) v.next (j := j) ht
  have hissued : ({ e with inbox := rest }.place i (some source) v.next).issued = e.issued := by
    rw [place_eq]; rfl
  have hisOpen : ({ e with inbox := rest }.place i (some source) v.next).isOpen = e.isOpen := by
    rw [place_eq]; rfl
  have hinbox : ({ e with inbox := rest }.place i (some source) v.next).inbox = rest := by
    rw [place_eq]
  refine .rest ?_ (fun q hq => ⟨hissued.symm ▸ hq, by rw [hisOpen]⟩) ?_
  · intro j t' ht'
    rw [htasks] at ht'
    split at ht'
    · rename_i hij
      cases ht'
      obtain ⟨-, -, hd, hr, hdel⟩ := t.moved_frame (some source) v.next
      exact ⟨t, hij ▸ ht, hd, hr, hdel⟩
    · exact ⟨t', ht', .refl t'⟩
  · intro j
    refine List.perm_iff_count.2 fun s => ?_
    have hb := hl.count_ahead j s
    have ha := hl'.count_ahead j s
    simp only [leaving, upcoming, hinbox] at ha
    simp only [leaving, upcoming, hi, List.filterMap_cons, List.flatMap_cons, Command.source?,
      Command.next] at hb
    rw [holding_place _ _ ht₀] at ha
    by_cases hij : i = j
    · have hc : 0 < t.holding.count source := List.count_pos_iff.2 hmem
      rw [holding_of_some (hij ▸ ht)] at hb
      rw [if_pos hij, List.count_append, count_without] at ha
      simp only [if_pos hij, List.count_append, List.count_cons] at hb
      by_cases hs : source = s
      · subst hs
        simp only [beq_self_eq_true, if_true] at ha hb
        omega
      · simp only [beq_eq_false_iff_ne.2 hs, if_neg hs, Bool.false_eq_true, if_false] at ha hb
        omega
    · rw [if_neg hij, show holding { e with inbox := rest } j = e.holding j from rfl] at ha
      simp only [if_neg hij, List.nil_append] at hb
      omega

/-- The creation of a task. -/
theorem of_create (hl : Ledger e) (hl' : Ledger e') {d : Descriptor}
    (tasks : e'.tasks =
      e.tasks.push { Task.fresh e.nextTask e.now d with holding := [.initial] })
    (used : e'.used = e.used) (issued : e'.issued = e.issued) (commands : SameCommands e e') :
    Effect e e' := by
  refine .create d tasks issued (by funext q; rw [isOpen, isOpen, used]) fun i => ?_
  by_cases hi : i = e.tasks.size
  · -- no command is about a task that was not there
    have hnone : e.holding i = [] :=
      holding_of_none (Array.getElem?_eq_none (Nat.le_of_eq hi.symm))
    have hnil : e.leaving i = [] :=
      (List.append_eq_nil_iff.1 (hnone ▸ hl.perm i).symm.eq_nil).2
    have hh : e'.holding i = [.initial] := by
      rw [holding, tasks, Array.getElem?_push, if_pos hi]
      rfl
    rw [if_pos hi]
    refine List.perm_iff_count.2 fun s => ?_
    have ha := hl'.count_ahead i s
    rw [commands.leaving, commands.upcoming, hnil, upcoming_of_leaving hnil, hh] at ha
    exact ha
  · rw [if_neg hi]
    refine hl.ahead_perm hl' commands ?_
    rw [holding, holding, tasks, Array.getElem?_push, if_neg hi]

/-- Promises are made and handed to a handler. -/
theorem of_assign (hl : Ledger e) (hl' : Ledger e') {n : Nat} {ps : List Promise}
    (tasks : e'.tasks = e.tasks) (used : e'.used = e.used ++ Array.replicate n false)
    (issued : e'.issued = e.issued ++ ps) (inbox : e'.inbox = e.inbox) : Effect e e' := by
  refine .rest (fun i t' ht' => ⟨t', tasks ▸ ht', .refl t'⟩) (fun q hq => ⟨?_, ?_⟩) fun i =>
    hl.ahead_perm hl' (.of_inbox inbox) ?_
  · rw [issued]
    exact List.mem_append_left _ hq
  · rw [isOpen, isOpen, used, Array.getElem?_append_left (hl.number_lt hq)]
  · rw [holding, holding, tasks]

/-- A request is worked off. -/
theorem of_accept (hl : Ledger e) {d : Descriptor} {reply : Nat} {rest : List Command}
    (hl' : Ledger ({ e with inbox := rest }.handle (.submit d reply)))
    (hi : e.inbox = .submit d reply :: rest) :
    Effect e ({ e with inbox := rest }.handle (.submit d reply)) := by
  have hcommands : ∀ {e' : Engine σ}, e'.inbox = rest → SameCommands e e' := by
    intro e' h
    refine ⟨fun j => ?_, fun j => ?_⟩
    · rw [leaving, leaving, h, hi, List.filterMap_cons, Command.source?]
    · rw [upcoming, upcoming, h, hi, List.flatMap_cons, Command.next, List.nil_append]
  simp only [handle] at hl' ⊢
  rcases accept_cases { e with inbox := rest } d with ⟨i, t, -, -, ha⟩ | ⟨-, ha⟩
  · rw [ha] at hl' ⊢
    exact .of_eq hl hl' rfl rfl rfl (hcommands rfl)
  · rw [ha] at hl' ⊢
    refine .of_create hl hl' (d := d) (tasks_create _ d) ?_ ?_ (hcommands ?_)
    · rw [create_eq]
    · rw [create_eq]; rfl
    · rw [create_eq]

/-- No step opens a promise that was given before. -/
theorem open_back (he : Effect e e') {p : Promise} (hp : p ∈ e.issued)
    (ho : e'.isOpen p = true) : e.isOpen p = true := by
  cases he with
  | use index x q m t hx hq ha hqo ht htasks hissued hisOpen =>
    rw [hisOpen] at ho
    split at ho
    · exact Bool.noConfusion ho
    · exact ho
  | deliver index x q v k t hx hr hq ht htasks hissued hisOpen => rwa [hisOpen] at ho
  | create d htasks hissued hisOpen => rwa [hisOpen] at ho
  | rest htasks hissued => rwa [(hissued p hp).2] at ho

/-- Promises stay given. -/
theorem still_issued (he : Effect e e') {p : Promise} (hp : p ∈ e.issued) : p ∈ e'.issued := by
  cases he with
  | use index x q m t hx hq ha hqo ht htasks hissued => exact hissued ▸ hp
  | deliver index x q v k t hx hr hq ht htasks hissued => exact hissued ▸ hp
  | create d htasks hissued => exact hissued ▸ hp
  | rest htasks hissued => exact (hissued p hp).1

end Effect

/-- No instruction gives promises. -/
theorem issued_instruct (env : Environment σ) (index : Nat) (e : Engine σ) (r : Routine) :
    (e.instruct env index r).issued = e.issued := by
  have hres : ∀ (e' : Engine σ) (r' : Routine), e'.issued = e.issued →
      (e'.resume index r').issued = e.issued := fun e' r' h =>
    (issued_updateHandler (f := fun h => { h with state := .running r' }) e' index
      fun _ => rfl).trans h
  have hend : ∀ ending, (e.endHandler index ending).issued = e.issued := by
    intro ending
    rw [endHandler_eq]
    exact issued_updateHandler e index fun _ => rfl
  cases r with
  | finish ending => exact hend ending
  | look p k =>
    simp only [instruct]
    split
    · exact hres e _ rfl
    · exact hend .ok
  | complete p m k => exact hres _ _ (by rw [complete_eq]; rfl)
  | deliver p v k => exact hres _ _ (by rw [deliver_eq]; rfl)
  | _ => exact hres _ _ rfl

/-- An instruction of a handler. -/
theorem Effect.of_instruct (hl : Ledger e) {index : Nat} {h : Handler} {r : Routine}
    (hl' : Ledger (e.instruct env index r)) (hrun : e.stopped = false)
    (hx : e.handlers[index]? = some h) (hr : h.state = .running r) :
    Effect e (e.instruct env index r) := by
  have hin : r.Within h.promises := hl.within index h hx r hr
  have hissued : (e.instruct env index r).issued = e.issued := issued_instruct env index e r
  have hsame : (e.instruct env index r).tasks = e.tasks → (e.instruct env index r).used = e.used →
      (e.instruct env index r).inbox = e.inbox → Effect e (e.instruct env index r) :=
    fun ht hu hi => .of_eq hl hl' ht hu hissued (.of_inbox hi)
  have hend : ∀ ending, e.instruct env index r = e.endHandler index ending →
      Effect e (e.instruct env index r) := by
    intro ending hi
    have he := hi.trans (endHandler_eq e index ending)
    exact hsame (by rw [he]) (by rw [he]) (by rw [he])
  cases r with
  | finish ending => exact hend ending rfl
  | look p k =>
    cases hv : e.view? p with
    | none => exact hend .ok (by simp only [instruct, hv])
    | some view =>
      have hi : e.instruct env index (.look p k) = e.resume index (k view) := by
        simp only [instruct, hv]
      exact hsame (by rw [hi]; rfl) (by rw [hi]; rfl) (by rw [hi]; rfl)
  | complete p m k =>
    by_cases ho : e.isOpen p = true
    · exact .of_complete hl hl' hrun hx hin.1.1 (.complete m k hr) ho rfl rfl rfl hissued
    · have hsame' : (e.complete p m).2 = e := by rw [complete_of_used (by simpa using ho)]
      exact hsame ((congrArg Engine.tasks hsame').trans rfl)
        ((congrArg Engine.used hsame').trans rfl) ((congrArg Engine.inbox hsame').trans rfl)
  | deliver p v k =>
    have hd := deliver_eq e p.task v
    refine .of_deliver hl hl' hx hr hin.1.1 rfl ?_ hissued (.of_inbox ?_)
    · exact (congrArg Engine.used hd).trans rfl
    · exact (congrArg Engine.inbox hd).trans rfl
  | _ => exact hsame rfl rfl rfl

/-- **What a step does to tasks**, as long as the engine is not told to stop. -/
theorem Step.effect (hl : Ledger e) (hl' : Ledger e') (hrun : e.stopped = false)
    (hc : e'.cancelled = false) (hs : Step env drift e e') : Effect e e' := by
  cases hs with
  | submit d =>
    have he := submit_eq e d
    have hi : (e.submit d).2.inbox = e.inbox ++ [.submit d e.replies.size] := by
      rw [he, hrun]
      rfl
    refine .of_eq hl hl' (by rw [he]) (by rw [he]) (by rw [he]; rfl) ⟨fun i => ?_, fun i => ?_⟩
    · rw [leaving, leaving, hi, List.filterMap_append]
      exact List.append_nil _
    · rw [upcoming, upcoming, hi, List.flatMap_append]
      exact List.append_nil _
  | shutdown => rw [shutdown_eq] at hc; exact Bool.noConfusion hc
  | work c rest hc' hs' hi =>
    cases c with
    | submit d reply => exact .of_accept hl hl' hi
    | transition i source verdict => exact .of_move hl hi
  | stop hc' => rw [stopWorker_eq] at hc; rw [hc'] at hc; exact Bool.noConfusion hc
  | take stage index rest hc' hw hq =>
    cases ht : e.tasks[index]? with
    | none =>
      have ht' : (e.setLoop stage { e.loop stage with queue := rest }).tasks[index]? = none := ht
      rw [handOne_of_none stage ht'] at hl' ⊢
      exact .of_eq hl hl' rfl rfl rfl (.of_inbox rfl)
    | some t =>
      have he := (handOne_eq (e := e.setLoop stage { e.loop stage with queue := rest }) stage ht).2
      have hi := (congrArg Engine.issued he).trans (issued_assign _ stage _ _)
      exact .of_assign hl hl' (by rw [he]; rfl) (by rw [he]; rfl) hi (by rw [he]; rfl)
  | closeWindow stage w hc' hw hg hd =>
    have he := handWindow_eq (e.setLoop stage { e.loop stage with gathering := none }) stage w.members
    have hi := (congrArg Engine.issued he).trans (issued_assign _ stage _ _)
    exact .of_assign hl hl' (by rw [he]; rfl) (by rw [he]; rfl) hi (by rw [he]; rfl)
  | run index h r hx hr => exact .of_instruct hl hl' hrun hx hr
  | watch index =>
    exact .of_eq hl hl' rfl rfl (issued_updateHandler e index fun _ => rfl) (.of_inbox rfl)
  | rescue index h ending error p hx hst herr hp =>
    by_cases ho : e.isOpen p = true
    · exact .of_complete hl hl' hrun hx hp (.rescue ending error hst herr) ho rfl rfl rfl
        (by rw [complete_eq]; rfl)
    · rw [complete_of_used (by simpa using ho)] at hl' ⊢
      exact .of_eq hl hl' rfl rfl rfl (.of_inbox rfl)
  | read index =>
    have he := readBus_eq e index
    exact .of_eq hl hl' (by rw [he]) (by rw [he]) (by rw [he]; rfl) (.of_inbox (by rw [he]))
  | _ => exact .of_eq hl hl' rfl rfl rfl (.of_inbox rfl)

/-! ## What a step does to one task -/

/-- What a step may do to one task, which is `t'` afterwards. -/
inductive Fate (e e' : Engine σ) (i : Nat) (t' : Task) : Prop
  /-- A promise of the task is used. -/
  | use (index : Nat) (h : Handler) (p : Promise) (m : Move) (t : Task) :
    e.handlers[index]? = some h → p ∈ h.promises → h.AboutTo p m → e.isOpen p = true →
    p.task = i → e.tasks[i]? = some t → t'.descriptor = t.descriptor →
    t'.results.items = t.results.items ++ [p.verdict m] →
    t'.delivered.items = t.delivered.items → e'.issued = e.issued →
    (∀ q, e'.isOpen q = if q.number = p.number then false else e.isOpen q) →
    (e'.ahead i).Perm ((e.ahead i).erase p.stage ++ (p.verdict m).next) → Fate e e' i t'
  /-- A verdict is delivered to the task. -/
  | deliver (index : Nat) (h : Handler) (p : Promise) (v : Verdict) (k : Bool → Routine) (t : Task) :
    e.handlers[index]? = some h → h.state = .running (.deliver p v k) → p ∈ h.promises →
    p.task = i → e.tasks[i]? = some t → t' = (t.deliver v).1 → e'.isOpen = e.isOpen →
    (e'.ahead i).Perm (e.ahead i) → Fate e e' i t'
  /-- The task is created. -/
  | create (d : Descriptor) : e.tasks[i]? = none →
    t' = { Task.fresh e.nextTask e.now d with holding := [.initial] } →
    e'.isOpen = e.isOpen → (e'.ahead i).Perm [.initial] → Fate e e' i t'
  /-- The task changes its place at most. -/
  | keep (t : Task) : e.tasks[i]? = some t → t.Alike t' →
    (∀ q ∈ e.issued, q.task = i → e'.isOpen q = e.isOpen q) → (e'.ahead i).Perm (e.ahead i) →
    Fate e e' i t'

/-- **What a step does to tasks, seen from one of them.** -/
theorem Effect.fate (he : Effect e e') (hl : Ledger e) {i : Nat} {t' : Task}
    (ht' : e'.tasks[i]? = some t') : Fate e e' i t' := by
  cases he with
  | use index x p m t hx hp ha ho ht htasks hissued hisOpen hahead =>
    have hi := htasks i t' ht'
    have hperm := hahead i
    split at hi
    · rename_i hpi
      rw [if_pos hpi] at hperm
      exact .use index x p m t hx hp ha ho hpi (hpi ▸ ht) hi.1 hi.2.1 hi.2.2 hissued hisOpen hperm
    · rename_i hpi
      rw [if_neg hpi] at hperm
      refine .keep t' hi (.refl t') (fun q hq hqi => ?_) hperm
      rw [hisOpen, if_neg]
      -- the promise that is used is for another task
      intro hn
      exact hpi (List.inj_on_of_nodup_map hl.nodup_numbers hq (mem_issued hx hp) hn ▸ hqi)
  | deliver index x p v k t hx hr hp ht htasks hissued hisOpen hahead =>
    have hi := htasks i t' ht'
    split at hi
    · rename_i hpi
      exact .deliver index x p v k t hx hr hp hpi (hpi ▸ ht) hi hisOpen (hahead i)
    · exact .keep t' hi (.refl t') (fun q _ _ => congrFun hisOpen q) (hahead i)
  | create d htasks hissued hisOpen hahead =>
    have hperm := hahead i
    rw [htasks, Array.getElem?_push] at ht'
    split at ht'
    · rename_i hi
      rw [if_pos hi] at hperm
      cases ht'
      exact .create d (hi ▸ Array.getElem?_eq_none (Nat.le_refl _)) rfl hisOpen hperm
    · rename_i hi
      rw [if_neg hi] at hperm
      exact .keep t' ht' (.refl t') (fun q _ _ => congrFun hisOpen q) hperm
  | rest htasks hissued hahead =>
    obtain ⟨t, ht, hat⟩ := htasks i t' ht'
    exact .keep t ht hat (fun q hq _ => (hissued q hq).2) (hahead i)

/-! ## What a step does to handlers -/

/-- A handler that is left alone; as long as it is running, its promises are left alone too. -/
structure Kept (e e' : Engine σ) (h h' : Handler) : Prop where
  stage : h'.stage = h.stage
  promises : h'.promises = h.promises
  state : h'.state = h.state
  isOpen : (∃ r, h.state = .running r) → ∀ p ∈ h.promises, e'.isOpen p = e.isOpen p

/-- A handler that was just started: it holds new promises for tasks that were waiting. -/
structure Started (e e' : Engine σ) (h : Handler) : Prop where
  promises : ∀ p ∈ h.promises, p.stage = h.stage ∧ e'.isOpen p = true ∧
    ∃ t, e.tasks[p.task]? = some t ∧ p.taskId = t.id ∧ p.descriptor = t.descriptor
  routine :
    ((e.blocks h.stage).window = none ∧
      ∃ p, h.promises = [p] ∧ h.state = .running ((e.blocks h.stage).onTask p)) ∨
    ((e.blocks h.stage).window ≠ none ∧
      h.state = .running ((e.blocks h.stage).onWindow h.promises) ∧
      ∃ w, (e.loop h.stage).gathering = some w ∧ h.promises.map Promise.task = w.members)

/-- If promises have numbers of their own, each is in the hands of one handler only. -/
theorem unique_of_nodup (hn : (e.issued.map Promise.number).Nodup) {i j : Nat} {x y : Handler}
    {p q : Promise} (hx : e.handlers[i]? = some x) (hy : e.handlers[j]? = some y)
    (hp : p ∈ x.promises) (hq : q ∈ y.promises) (heq : p.number = q.number) : i = j ∧ p = q := by
  have hpq : p = q := List.inj_on_of_nodup_map hn (mem_issued hx hp) (mem_issued hy hq) heq
  refine ⟨?_, hpq⟩
  subst hpq
  have hnodup : (e.handlers.toList.map Handler.promises).flatten.Nodup := List.Nodup.of_map _ hn
  have hdisjoint := (List.nodup_flatten.1 hnodup).2
  rw [List.pairwise_iff_getElem] at hdisjoint
  obtain ⟨hi, hxi⟩ := Array.getElem?_eq_some_iff.1 hx
  obtain ⟨hj, hyj⟩ := Array.getElem?_eq_some_iff.1 hy
  have hlen : (e.handlers.toList.map Handler.promises).length = e.handlers.size := by simp
  have hget : ∀ (k : Nat) (hk : k < e.handlers.size), (e.handlers.toList.map Handler.promises)[k] =
      (e.handlers[k]).promises := fun k hk => by simp
  rcases Nat.lt_trichotomy i j with hij | hij | hij
  · have hd := hdisjoint i j (by omega) (by omega) hij
    rw [hget i hi, hget j hj, hxi, hyj] at hd
    exact absurd hq (hd hp)
  · exact hij
  · have hd := hdisjoint j i (by omega) (by omega) hij
    rw [hget i hi, hget j hj, hxi, hyj] at hd
    exact absurd hp (hd hq)

theorem Ledger.unique (h : Ledger e) {i j : Nat} {x y : Handler} {p q : Promise}
    (hx : e.handlers[i]? = some x) (hy : e.handlers[j]? = some y) (hp : p ∈ x.promises)
    (hq : q ∈ y.promises) (hn : p.number = q.number) : i = j ∧ p = q :=
  unique_of_nodup h.nodup_numbers hx hy hp hq hn

/-- An instruction uses no promise but the one it names. -/
theorem isOpen_instruct {index : Nat} {r : Routine} {p : Promise}
    (h : ∀ q m k, r = .complete q m k → p.number ≠ q.number) :
    (e.instruct env index r).isOpen p = e.isOpen p := by
  have hend : ∀ ending, (e.endHandler index ending).isOpen p = e.isOpen p := by
    intro ending
    rw [endHandler_eq]
    rfl
  cases r with
  | finish ending => exact hend ending
  | look q k =>
    simp only [instruct]
    split
    · rfl
    · exact hend .ok
  | complete q m k =>
    have hc : (e.instruct env index (.complete q m k)).isOpen p = (e.complete q m).2.isOpen p := rfl
    rw [hc]
    by_cases ho : e.isOpen q = true
    · rw [isOpen_complete ho, if_neg (h q m k rfl)]
    · rw [complete_of_used (by simpa using ho)]
  | deliver q v k =>
    have hd : (e.instruct env index (.deliver q v k)).isOpen p = (e.deliver q.task v).2.isOpen p := rfl
    rw [hd, deliver_eq]
    rfl
  | _ => rfl

/-- A new handler comes after the others. -/
theorem Ledger.handler_assign (hl : Ledger e) {n index : Nat} {x h' : Handler}
    (handlers : e'.handlers = e.handlers.push x)
    (used : e'.used = e.used ++ Array.replicate n false) (hh : e'.handlers[index]? = some h') :
    (∃ h, e.handlers[index]? = some h ∧ Kept e e' h h') ∨
      e.handlers[index]? = none ∧ h' = x := by
  rw [handlers, Array.getElem?_push] at hh
  split at hh
  · rename_i hi
    exact .inr ⟨Array.getElem?_eq_none (Nat.le_of_eq hi.symm), (Option.some.inj hh).symm⟩
  · refine .inl ⟨h', hh, rfl, rfl, rfl, fun _ p hp => ?_⟩
    rw [isOpen, isOpen, used, Array.getElem?_append_left (hl.number_lt (mem_issued hh hp))]

/-- A stage takes a task: a handler is started for it, and the others are left alone. -/
theorem Ledger.handler_take (hl : Ledger e) {stage : Stage} {i : Nat} {rest : List Nat}
    (hw : (e.blocks stage).window = none) {index : Nat} {h' : Handler}
    (hh : ((e.setLoop stage { e.loop stage with queue := rest }).handOne stage i).handlers[index]? =
      some h') :
    (∃ h, e.handlers[index]? = some h ∧
        Kept e ((e.setLoop stage { e.loop stage with queue := rest }).handOne stage i) h h') ∨
      e.handlers[index]? = none ∧
        Started e ((e.setLoop stage { e.loop stage with queue := rest }).handOne stage i) h' := by
  have hnum := map_number_promises (e.setLoop stage { e.loop stage with queue := rest }) stage [i]
  cases ht : e.tasks[i]? with
  | none =>
    have ht' : (e.setLoop stage { e.loop stage with queue := rest }).tasks[i]? = none := ht
    rw [handOne_of_none stage ht'] at hh ⊢
    exact .inl ⟨h', hh, rfl, rfl, rfl, fun _ _ _ => rfl⟩
  | some t =>
    have ht' : (e.setLoop stage { e.loop stage with queue := rest }).tasks[i]? = some t := ht
    obtain ⟨hps, he⟩ := handOne_eq stage ht'
    have hopen := fun p hp => isOpen_assign_of_mem (p := p) hnum hp stage
    rw [he] at hh ⊢
    rw [hps] at hh hopen ⊢
    rcases hl.handler_assign rfl rfl hh with hk | ⟨hnone, rfl⟩
    · exact .inl hk
    · refine .inr ⟨hnone, fun p hp => ?_, .inl ⟨hw, _, rfl, rfl⟩⟩
      have ho := hopen p hp
      rw [List.mem_singleton.1 hp] at ho ⊢
      exact ⟨rfl, ho (.finish .ok), t, ht, rfl, rfl⟩

/-- A stage closes its window: a handler is started for all tasks in it, and the others are left
alone. -/
theorem Ledger.handler_closeWindow (hl : Ledger e) {stage : Stage} {w : OpenWindow}
    (hw : (e.blocks stage).window ≠ none) (hg : (e.loop stage).gathering = some w) {index : Nat}
    {h' : Handler}
    (hh : ((e.setLoop stage { e.loop stage with gathering := none }).handWindow stage
      w.members).handlers[index]? = some h') :
    (∃ h, e.handlers[index]? = some h ∧ Kept e
        ((e.setLoop stage { e.loop stage with gathering := none }).handWindow stage w.members) h h') ∨
      e.handlers[index]? = none ∧ Started e
        ((e.setLoop stage { e.loop stage with gathering := none }).handWindow stage w.members) h' := by
  have hnum := map_number_promises (e.setLoop stage { e.loop stage with gathering := none }) stage
    w.members
  have hm : ∀ i ∈ w.members,
      i < (e.setLoop stage { e.loop stage with gathering := none }).tasks.size := by
    intro i hi
    have hcount : 0 < (e.loop stage).members.count i := by
      rw [Loop.members, hg]
      exact List.count_pos_iff.2 hi
    obtain ⟨t, ht⟩ := hl.task_of_loop (Nat.lt_add_left _ hcount)
    exact (Array.getElem?_eq_some_iff.1 ht).1
  have htask := map_task_promises stage hm
  rw [handWindow_eq] at hh ⊢
  have hopen := fun p hp => isOpen_assign_of_mem (p := p) hnum hp stage
  rcases hl.handler_assign rfl rfl hh with hk | ⟨hnone, rfl⟩
  · exact .inl hk
  · refine .inr ⟨hnone, fun p hp => ?_, .inr ⟨hw, rfl, w, hg, htask⟩⟩
    obtain ⟨hst, t, ht, hid, hd⟩ := forall_promises hp
    exact ⟨hst, hopen p hp (.finish .ok), t, ht, hid, hd⟩

/-- An instruction takes its handler further, and the others are left alone. -/
theorem Ledger.handler_instruct (hl : Ledger e) {i : Nat} {x : Handler} {r : Routine}
    (hx : e.handlers[i]? = some x) (hr : x.state = .running r) {index : Nat} {h' : Handler}
    (hh : (e.instruct env i r).handlers[index]? = some h') :
    (∃ h, e.handlers[index]? = some h ∧ Kept e (e.instruct env i r) h h') ∨
      i = index ∧ ∃ state, h' = x.at state := by
  by_cases hi : i = index
  · subst hi
    have hanswers : e.Answers env (.own x.promises) := .own
    obtain ⟨state, hx', -⟩ := keeps_instruct hx (hl.within i x hx r hr) hanswers
    rw [hh] at hx'
    exact .inr ⟨rfl, state, Option.some.inj hx'⟩
  · rw [handlers_instruct hi] at hh
    refine .inl ⟨h', hh, rfl, rfl, rfl, fun _ p hp => isOpen_instruct fun q m k hqr hn => hi ?_⟩
    have hin : r.Within x.promises := hl.within i x hx r hr
    rw [hqr] at hin
    exact (hl.unique hh hx hp hin.1.1 hn).1.symm

/-- **What a step does to handlers**: it leaves one alone, carries out its next instruction, or starts
it. -/
theorem Step.handler_back (hl : Ledger e) (hc : e'.cancelled = false) (hs : Step env drift e e')
    {index : Nat} {h' : Handler} (hh : e'.handlers[index]? = some h') :
    (∃ h, e.handlers[index]? = some h ∧ Kept e e' h h') ∨
    (∃ h r state, e.handlers[index]? = some h ∧ h.state = .running r ∧
      e' = e.instruct env index r ∧ h' = h.at state) ∨
    e.handlers[index]? = none ∧ Started e e' h' := by
  have hsame : e'.handlers = e.handlers → e'.used = e.used →
      ∃ h, e.handlers[index]? = some h ∧ Kept e e' h h' := by
    intro hhandlers hused
    refine ⟨h', hhandlers ▸ hh, rfl, rfl, rfl, fun _ p _ => ?_⟩
    rw [isOpen, isOpen, hused]
  cases hs with
  | submit d => exact .inl (hsame (by rw [submit_eq]) (by rw [submit_eq]))
  | shutdown => rw [shutdown_eq] at hc; exact Bool.noConfusion hc
  | work c rest => exact .inl (hsame (by rw [handle_eq]) (by rw [handle_eq]))
  | stop hc' => rw [stopWorker_eq] at hc; rw [hc'] at hc; exact Bool.noConfusion hc
  | read i => exact .inl (hsame (by rw [readBus_eq]) (by rw [readBus_eq]))
  | take stage i rest hc' hw hq => exact (hl.handler_take hw hh).imp_right .inr
  | closeWindow stage w hc' hw hg hd => exact (hl.handler_closeWindow hw hg hh).imp_right .inr
  | run i x r hx hr =>
    rcases hl.handler_instruct hx hr hh with hk | ⟨rfl, state, hx'⟩
    · exact .inl hk
    · exact .inr (.inl ⟨x, r, state, hx, hr, rfl, hx'⟩)
  | watch i =>
    simp only [updateHandler, Array.getElem?_modify] at hh
    split at hh
    · obtain ⟨x, hx, rfl⟩ := Option.map_eq_some_iff.1 hh
      exact .inl ⟨x, hx, rfl, rfl, rfl, fun _ _ _ => rfl⟩
    · exact .inl ⟨h', hh, rfl, rfl, rfl, fun _ _ _ => rfl⟩
  | rescue i x ending error p hx hst herr hp =>
    have hh' : e.handlers[index]? = some h' := by rw [complete_eq] at hh; exact hh
    refine .inl ⟨h', hh', rfl, rfl, rfl, fun hrunning q hq => ?_⟩
    obtain ⟨r, hr⟩ := hrunning
    by_cases ho : e.isOpen p = true
    · rw [isOpen_complete ho, if_neg]
      intro hn
      -- the promise that is failed belongs to a handler that has ended
      have hi := (hl.unique hh' hx hq hp hn).1
      rw [hi, hx] at hh'
      cases hh'
      rw [hst] at hr
      exact absurd hr (by simp)
    · rw [complete_of_used (by simpa using ho)]
  | _ => exact .inl (hsame rfl rfl)

/-- No step takes a handler away. -/
theorem Step.exists_handler (hl : Ledger e) (hs : Step env drift e e') {index : Nat} {h : Handler}
    (hh : e.handlers[index]? = some h) : ∃ h', e'.handlers[index]? = some h' := by
  have hsame : e'.handlers = e.handlers → ∃ h', e'.handlers[index]? = some h' :=
    fun hhandlers => ⟨h, by rw [hhandlers, hh]⟩
  have hpush : ∀ x, e'.handlers = e.handlers.push x → ∃ h', e'.handlers[index]? = some h' := by
    intro x hhandlers
    have hlt : index < e.handlers.size := (Array.getElem?_eq_some_iff.1 hh).1
    rw [hhandlers, Array.getElem?_push, if_neg (Nat.ne_of_lt hlt)]
    exact ⟨h, hh⟩
  cases hs with
  | submit d => exact hsame (by rw [submit_eq])
  | shutdown => exact hsame (by rw [shutdown_eq])
  | work c rest => exact hsame (by rw [handle_eq])
  | stop => exact hsame (by rw [stopWorker_eq])
  | read i => exact hsame (by rw [readBus_eq])
  | rescue i x ending error p => exact hsame (by rw [complete_eq])
  | take stage i rest hc hw =>
    cases ht : (e.setLoop stage { e.loop stage with queue := rest }).tasks[i]? with
    | none => exact hsame (by rw [handOne_of_none stage ht]; rfl)
    | some t => exact hpush _ (by rw [(handOne_eq stage ht).2]; rfl)
  | closeWindow stage w => exact hpush _ (by rw [handWindow_eq]; rfl)
  | run i x r hx hr =>
    by_cases hi : i = index
    · subst hi
      have hanswers : e.Answers env (.own x.promises) := .own
      obtain ⟨state, hx', -⟩ := keeps_instruct hx (hl.within i x hx r hr) hanswers
      exact ⟨_, hx'⟩
    · exact ⟨h, by rw [handlers_instruct hi, hh]⟩
  | watch i =>
    simp only [updateHandler, Array.getElem?_modify]
    split
    · exact ⟨_, by rw [hh]; rfl⟩
    · exact ⟨h, hh⟩
  | _ => exact hsame rfl

/-- A step leaves a handler alone or carries out its next instruction. -/
theorem Step.handler_forth (hl : Ledger e) (hc : e'.cancelled = false) (hs : Step env drift e e')
    {index : Nat} {h : Handler} (hh : e.handlers[index]? = some h) :
    (∃ h', e'.handlers[index]? = some h' ∧ Kept e e' h h') ∨
      ∃ r, h.state = .running r ∧ e' = e.instruct env index r := by
  obtain ⟨h', hh'⟩ := hs.exists_handler hl hh
  rcases hs.handler_back hl hc hh' with ⟨x, hx, hk⟩ | ⟨x, r, state, hx, hr, he, -⟩ | ⟨hnone, -⟩
  · rw [hh] at hx
    cases hx
    exact .inl ⟨h', hh', hk⟩
  · rw [hh] at hx
    cases hx
    exact .inr ⟨r, hr, he⟩
  · rw [hh] at hnone
    cases hnone

/-- A handler of a stage without a window has one promise, and begins with its routine for that. -/
theorem Started.onTask {x : Handler} (h : Started e e' x) (hw : (e.blocks x.stage).window = none)
    {p : Promise} (hp : p ∈ x.promises) :
    x.promises = [p] ∧ x.state = .running ((e.blocks x.stage).onTask p) := by
  rcases h.routine with ⟨-, q, hq, hst⟩ | ⟨hne, -⟩
  · rw [hq, List.mem_singleton] at hp
    subst hp
    exact ⟨hq, hst⟩
  · exact absurd hw hne

/-- The task of a promise that was given before a step, as it was then. -/
theorem Step.task_back (hs : Step env drift e e') (hl : Ledger e) {p : Promise} (hp : p ∈ e.issued)
    {t' : Task} (ht' : e'.tasks[p.task]? = some t') :
    ∃ t, e.tasks[p.task]? = some t ∧ t.Grows t' := by
  obtain ⟨t, ht, -⟩ := hl.promised p hp
  obtain ⟨t'', ht'', hg⟩ := hs.grows p.task t ht
  rw [ht'] at ht''
  cases ht''
  exact ⟨t, ht, hg⟩

/-! ## Handlers that keep to contracts -/

/-- A handler keeps to a contract, if it did so before and is answered accordingly, or starts so. -/
theorem Step.handler_keeps (hs : Step env drift e e') (hl : Ledger e) (hc : e'.cancelled = false)
    {C : Contract} {index : Nat} {x' : Handler} (hx' : e'.handlers[index]? = some x')
    (before : ∀ x, e.handlers[index]? = some x → x'.stage = x.stage → x'.promises = x.promises →
      x.Keeps C ∧ e.Answers env C)
    (started : Started e e' x' → x'.Keeps C) : x'.Keeps C := by
  rcases hs.handler_back hl hc hx' with ⟨x, hx, hk⟩ | ⟨x, r, state, hx, hr, rfl, rfl⟩ | ⟨-, hx⟩
  · rw [Handler.Keeps, hk.state]
    exact (before x hx hk.stage hk.promises).1
  · obtain ⟨hkeeps, hanswers⟩ := before x hx rfl rfl
    rw [Handler.Keeps, hr] at hkeeps
    obtain ⟨state', hx'', hkeeps'⟩ := keeps_instruct hx hkeeps hanswers
    rw [hx'] at hx''
    cases hx''
    exact hkeeps'
  · exact started hx

/-- Every handler keeps to the contract of its stage, and its promises are for that stage. -/
structure Compliant (C : Stage → List Promise → Contract) (e : Engine σ) : Prop where
  keeps : ∀ (index : Nat) (h : Handler), e.handlers[index]? = some h →
    h.Keeps (C h.stage h.promises)
  stages : ∀ (index : Nat) (h : Handler), e.handlers[index]? = some h →
    ∀ p ∈ h.promises, p.stage = h.stage

namespace Compliant

variable {C : Stage → List Promise → Contract}

theorem start (blocks : Stage → Block) (world : σ) : Compliant C (Engine.start blocks world) where
  keeps := fun i h hi => by simp [Engine.start] at hi
  stages := fun i h hi => by simp [Engine.start] at hi

/-- Handlers that start in compliance and are answered accordingly stay compliant. -/
theorem step (h : Compliant C e) (hl : Ledger e) (hc : e'.cancelled = false)
    (hs : Step env drift e e') (started : ∀ x, Started e e' x → x.Keeps (C x.stage x.promises))
    (answers : ∀ (index : Nat) (x : Handler), e.handlers[index]? = some x →
      e.Answers env (C x.stage x.promises)) : Compliant C e' := by
  refine ⟨fun index x' hx' => ?_, fun index x' hx' => ?_⟩
  · refine hs.handler_keeps hl hc hx' (fun x hx hstage hps => ?_) (started x')
    rw [hstage, hps]
    exact ⟨h.keeps index x hx, answers index x hx⟩
  · rcases hs.handler_back hl hc hx' with ⟨x, hx, hk⟩ | ⟨x, r, state, hx, -, -, rfl⟩ |
      ⟨-, hx⟩
    · rw [hk.stage, hk.promises]
      exact h.stages index x hx
    · exact h.stages index x hx
    · exact fun p hp => (hx.promises p hp).1

/-- What a compliant handler is about to do with a promise is allowed. -/
theorem allows (h : Compliant C e) {index : Nat} {x : Handler} {p : Promise} {m : Move}
    (hx : e.handlers[index]? = some x) (ha : x.AboutTo p m) :
    (C x.stage x.promises).uses p m ∨
      ∃ ending error, (C x.stage x.promises).ends ending ∧ ending.error? = some error ∧
        x.state = .ended ending ∧ m = .fail error :=
  (h.keeps index x hx).allows ha

end Compliant

/-! ## Verdicts and their promises -/

/-- Every recorded verdict was given by a promise for the task, which was used as a rule allows. -/
def Signed (rule : Promise → Move → Prop) (e : Engine σ) : Prop :=
  ∀ (i : Nat) (t : Task), e.tasks[i]? = some t → ∀ v ∈ t.results.items,
    ∃ p ∈ e.issued, p.task = i ∧ e.isOpen p = false ∧ ∃ m, v = p.verdict m ∧ rule p m

namespace Signed

variable {rule : Promise → Move → Prop}

theorem start (blocks : Stage → Block) (world : σ) : Signed rule (Engine.start blocks world) :=
  fun i t ht => by simp [Engine.start] at ht

theorem step (h : Signed rule e) (hl : Ledger e) (he : Effect e e')
    (allowed : ∀ (index : Nat) (x : Handler) (p : Promise) (m : Move),
      e.handlers[index]? = some x → p ∈ x.promises → x.AboutTo p m → rule p m) : Signed rule e' := by
  intro i t' ht' v hv
  -- what was recorded before
  have hold : ∀ t, e.tasks[i]? = some t → v ∈ t.results.items →
      ∃ p ∈ e'.issued, p.task = i ∧ e'.isOpen p = false ∧ ∃ m, v = p.verdict m ∧ rule p m := by
    intro t ht hv
    obtain ⟨q, hq, hqi, hqo, hm⟩ := h i t ht v hv
    refine ⟨q, he.still_issued hq, hqi, ?_, hm⟩
    rw [← Bool.not_eq_true] at hqo ⊢
    exact fun ho => hqo (he.open_back hq ho)
  cases he.fate hl ht' with
  | use index x p m t hx hp ha ho hpi ht hd hr hdel hissued hisOpen =>
    rw [hr] at hv
    rcases List.mem_append.1 hv with hv | hv
    · exact hold t ht hv
    · refine ⟨p, hissued ▸ mem_issued hx hp, hpi, ?_, m, List.mem_singleton.1 hv, ?_⟩
      · rw [hisOpen, if_pos rfl]
      · exact allowed index x p m hx hp ha
  | deliver index x p w k t hx hr hp hpi ht heq =>
    rw [heq, Task.deliver_frame] at hv
    exact hold t ht hv
  | create d hnone heq =>
    rw [heq] at hv
    exact absurd hv List.not_mem_nil
  | keep t ht hat => exact hold t ht (hat.results ▸ hv)

end Signed
end Engine
end RpcFlow
