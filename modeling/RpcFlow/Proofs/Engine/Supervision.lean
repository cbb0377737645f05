import RpcFlow.Proofs.Engine.Lulls
import RpcFlow.Proofs.Engine.Records
import RpcFlow.Proofs.Engine.Schedule
import RpcFlow.Proofs.Engine.Shutdown
import RpcFlow.Proofs.Engine.Together

/-!
# Handlers that fail

A handler may end with an error or crash when it has used some of its promises and others not.  Its
supervisor then fails those that are left.  Whatever happens in the meantime, each promise is used once,
by one of the two, and the worker is told of it once.

* `Engine.posted` — the transitions that a step sends to the worker.
* `Engine.Dealing`, `Engine.Step.dealing` — what a step does with promises, also after the engine was
  told to stop.
* `Engine.Minutes` — a run with what one handler does in it, with its history and with the transitions
  that are sent.
* `Engine.Progress` — how far a promise of the handler has come, which `Engine.Minutes.progress` proves
  of each.
* `Engine.strands_no_task` — **when the supervisor of a failed handler has had its turn, each promise was
  used exactly once.**
-/

set_option autoImplicit false

namespace RpcFlow

/-- The command that tells the worker of a used promise. -/
def Entry.transition (x : Entry) : Command := .transition x.promise.task x.promise.stage x.verdict

/-- Does a command move a task? -/
def Command.moves : Command → Bool
  | submit .. => false
  | transition .. => true

namespace Engine

variable {σ : Type} {env : Environment σ} {drift : σ → σ → Prop} {blocks : Stage → Block}
  {e₀ e e' : Engine σ}

/-! ## What a step does with promises -/

/-- The transitions that a step sends to the worker. -/
def posted (e e' : Engine σ) : List Command := (e'.inbox.drop e.inbox.length).filter Command.moves

theorem posted_of_le (h : e'.inbox.length ≤ e.inbox.length) : posted e e' = [] := by
  rw [posted, List.drop_of_length_le h]
  rfl

theorem posted_of_append {cs : List Command} (h : e'.inbox = e.inbox ++ cs) :
    posted e e' = cs.filter Command.moves := by
  rw [posted, h, List.drop_left]

/-- What a step does with the promises that were given before: it leaves them alone, or one of them is
used, by its handler or by the supervisor of that. -/
inductive Dealing (env : Environment σ) (e e' : Engine σ) : Prop
  | idle : (∀ p ∈ e.issued, e'.isOpen p = e.isOpen p) → posted e e' = [] → Dealing env e e'
  | use (index : Nat) (x : Handler) (p : Promise) (m : Move) :
    e.handlers[index]? = some x → p ∈ x.promises → e.isOpen p = true →
    (∀ q, e'.isOpen q = if q.number = p.number then false else e.isOpen q) →
    spent e e' = [⟨p, p.verdict m⟩] →
    (e.stopped = false → posted e e' = [.transition p.task p.stage (p.verdict m)]) →
    ((∃ k, x.state = .running (.complete p m k) ∧
        e' = e.instruct env index (.complete p m k)) ∨
      ∃ ending error, x.state = .ended ending ∧ ending.error? = some error ∧ m = .fail error) →
    Dealing env e e'

/-- The use of an open promise is added to the history. -/
theorem spent_complete (hg : Granted e) {index : Nat} {x : Handler} {p : Promise} {m : Move}
    (hx : e.handlers[index]? = some x) (hp : p ∈ x.promises) (ho : e.isOpen p = true)
    (tasks : e'.tasks = (e.complete p m).2.tasks) (used : e'.used = (e.complete p m).2.used) :
    spent e e' = [⟨p, p.verdict m⟩] := by
  have hpx := mem_issued hx hp
  obtain ⟨t, ht, -⟩ := hg.tasks p hpx
  have hisOpen : ∀ q, e'.isOpen q = if q.number = p.number then false else e.isOpen q := fun q => by
    rw [← isOpen_complete ho m q, isOpen, isOpen, used]
  have ht' : e'.tasks[p.task]? = some (t.record (p.verdict m)) := by
    rw [tasks, tasks_complete ho, if_pos rfl, ht]
    rfl
  have hresults : (t.record (p.verdict m)).results.items = t.results.items ++ [p.verdict m] := by
    rw [Task.record_of_open (hg.unfinished p hpx ho t ht)]
  exact spent_eq_singleton hg.numbers hpx ho hisOpen ht' hresults

namespace Dealing

theorem of_used (used : e'.used = e.used) (hposted : posted e e' = []) : Dealing env e e' :=
  .idle (fun p _ => by rw [isOpen, isOpen, used]) hposted

theorem of_same (used : e'.used = e.used) (inbox : e'.inbox = e.inbox) : Dealing env e e' :=
  of_used used (posted_of_le (Nat.le_of_eq (congrArg List.length inbox)))

/-- Promises are made for a handler that is started. -/
theorem of_made (hl : Ledger e) {n : Nat} (used : e'.used = e.used ++ Array.replicate n false)
    (inbox : e'.inbox = e.inbox) : Dealing env e e' := by
  refine .idle (fun p hp => ?_) (posted_of_le (Nat.le_of_eq (congrArg List.length inbox)))
  rw [isOpen, isOpen, used, Array.getElem?_append_left (hl.number_lt hp)]

/-- A promise is used, or it is attempted to. -/
theorem of_complete (hg : Granted e) {index : Nat} {x : Handler} {p : Promise} {m : Move}
    (hx : e.handlers[index]? = some x) (hp : p ∈ x.promises)
    (how : (∃ k, x.state = .running (.complete p m k) ∧
        e' = e.instruct env index (.complete p m k)) ∨
      ∃ ending error, x.state = .ended ending ∧ ending.error? = some error ∧ m = .fail error)
    (tasks : e'.tasks = (e.complete p m).2.tasks) (used : e'.used = (e.complete p m).2.used)
    (inbox : e'.inbox = (e.complete p m).2.inbox) : Dealing env e e' := by
  by_cases ho : e.isOpen p = true
  · have hisOpen : ∀ q, e'.isOpen q = if q.number = p.number then false else e.isOpen q := fun q => by
      rw [← isOpen_complete ho m q, isOpen, isOpen, used]
    refine .use index x p m hx hp ho hisOpen (spent_complete hg hx hp ho tasks used) (fun hrun => ?_) how
    rw [complete_of_isOpen ho] at inbox
    simp only [hrun, Bool.false_eq_true, if_false] at inbox
    rw [posted_of_append inbox]
    rfl
  · rw [complete_of_used (by simpa using ho)] at used inbox
    exact of_same used inbox

/-- An instruction of a handler. -/
theorem of_instruct (hg : Granted e) {index : Nat} {x : Handler} {r : Routine}
    (hx : e.handlers[index]? = some x) (hr : x.state = .running r) (hin : r.Within x.promises) :
    Dealing env e (e.instruct env index r) := by
  have hend : ∀ ending, e.instruct env index r = e.endHandler index ending →
      Dealing env e (e.instruct env index r) := fun ending h => by
    have he := h.trans (endHandler_eq e index ending)
    exact of_same (by rw [he]) (by rw [he])
  cases r with
  | finish ending => exact hend ending rfl
  | look p k =>
    cases hv : e.view? p with
    | none => exact hend .ok (by simp only [instruct, hv])
    | some view =>
      have hi : e.instruct env index (.look p k) = e.resume index (k view) := by
        simp only [instruct, hv]
      exact of_same (by rw [hi]; rfl) (by rw [hi]; rfl)
  | complete p m k => exact of_complete hg hx hin.1.1 (.inl ⟨k, hr, rfl⟩) rfl rfl rfl
  | deliver p v k =>
    have hd := deliver_eq e p.task v
    exact of_same ((congrArg Engine.used hd).trans rfl) ((congrArg Engine.inbox hd).trans rfl)
  | _ => exact of_same rfl rfl

end Dealing

/-- **A step leaves the promises alone that were given, or one of them is used.** -/
theorem Step.dealing (hs : Step env drift e e') (he : Reachable env drift blocks e)
    (hb : ∀ s, (blocks s).Proper) : Dealing env e e' := by
  have hg := he.granted hb
  cases hs with
  | submit d =>
    refine .of_used (by rw [submit_eq]) ?_
    have hinbox : (e.submit d).2.inbox =
        e.inbox ++ if e.stopped then [] else [.submit d e.replies.size] := by
      rw [submit_eq]
      cases e.stopped with
      | true => exact (List.append_nil _).symm
      | false => rfl
    rw [posted_of_append hinbox]
    split <;> rfl
  | shutdown => exact .of_same (by rw [shutdown_eq]) (by rw [shutdown_eq])
  | work c rest hc hrun hi =>
    refine .of_used (by rw [handle_eq]) (posted_of_le ?_)
    rw [handle_eq, hi]
    exact Nat.le_succ _
  | stop =>
    refine .of_used (by rw [stopWorker_eq]) (posted_of_le ?_)
    rw [stopWorker_eq]
    exact Nat.zero_le _
  | take stage index rest hc =>
    have hl := he.ledger hb hc
    cases ht : (e.setLoop stage { e.loop stage with queue := rest }).tasks[index]? with
    | none => rw [handOne_of_none stage ht]; exact .of_same rfl rfl
    | some t => rw [(handOne_eq stage ht).2]; exact .of_made hl rfl rfl
  | closeWindow stage w hc => rw [handWindow_eq]; exact .of_made (he.ledger hb hc) rfl rfl
  | run index x r hx hr =>
    have hkeeps := he.keeps_own hb index x hx
    rw [Handler.Keeps, hr] at hkeeps
    exact .of_instruct hg hx hr hkeeps
  | rescue index x ending error p hx hst herr hp =>
    exact .of_complete hg hx hp (.inr ⟨ending, error, hst, herr, rfl⟩) rfl rfl rfl
  | read index => exact .of_same (by rw [readBus_eq]) (by rw [readBus_eq])
  | _ => exact .of_same rfl rfl

/-! ## What is said of a run -/

/-- The runs from a state, with what one handler does in them, with the promises that are used, each with
its verdict, and with the transitions that are sent to the worker. -/
inductive Minutes (env : Environment σ) (drift : σ → σ → Prop) (index : Nat) (e₀ : Engine σ) :
    List Deed → List Entry → List Command → Engine σ → Prop
  | start : Minutes env drift index e₀ [] [] [] e₀
  /-- The handler carries out its next instruction. -/
  | own {deeds : List Deed} {history : List Entry} {mail : List Command} {e : Engine σ} {x : Handler}
    {r : Routine} : Minutes env drift index e₀ deeds history mail e →
    e.handlers[index]? = some x → x.state = .running r →
    Minutes env drift index e₀ (deeds ++ e.deeds r) (history ++ spent e (e.instruct env index r))
      (mail ++ posted e (e.instruct env index r)) (e.instruct env index r)
  /-- Something else happens. -/
  | other {deeds : List Deed} {history : List Entry} {mail : List Command} {e e' : Engine σ} :
    Minutes env drift index e₀ deeds history mail e → Step env drift e e' →
    (∀ x r, e.handlers[index]? = some x → x.state = .running r → e' ≠ e.instruct env index r) →
    Minutes env drift index e₀ deeds (history ++ spent e e') (mail ++ posted e e') e'

section

variable {index : Nat} {deeds ds : List Deed} {history : List Entry} {mail : List Command}
  {p : Promise}

namespace Minutes

theorem annals (h : Minutes env drift index e₀ deeds history mail e) :
    Annals env drift e₀ history e := by
  induction h with
  | start => exact .start
  | own _ hx hr ih => exact ih.step (.run _ index _ _ hx hr)
  | other _ hs _ ih => exact ih.step hs

/-- Something can be said of every run. -/
theorem exists_of_steps (index : Nat) (h : Steps env drift e₀ e) :
    ∃ deeds history mail, Minutes env drift index e₀ deeds history mail e := by
  induction h with
  | refl => exact ⟨[], [], [], .start⟩
  | @tail e e' _ hs ih =>
    obtain ⟨deeds, history, mail, h⟩ := ih
    by_cases hown : ∃ x r, e.handlers[index]? = some x ∧ x.state = .running r ∧
        e' = e.instruct env index r
    · obtain ⟨x, r, hx, hr, rfl⟩ := hown
      exact ⟨_, _, _, h.own hx hr⟩
    · exact ⟨_, _, _, h.other hs fun x r hx hr heq => hown ⟨x, r, hx, hr, heq⟩⟩

end Minutes

/-! ## One promise -/

/-- The entries of a history that are about a promise. -/
def entriesOf (history : List Entry) (p : Promise) : List Entry :=
  history.filter fun x => x.promise.number == p.number

theorem entriesOf_append (history history' : List Entry) (p : Promise) :
    entriesOf (history ++ history') p = entriesOf history p ++ entriesOf history' p :=
  List.filter_append _ _

theorem entriesOf_singleton (x : Entry) (p : Promise) :
    entriesOf [x] p = if x.promise.number = p.number then [x] else [] := by
  rw [entriesOf, List.filter_singleton]
  simp only [beq_iff_eq, Bool.cond_eq_ite]

/-- How far a promise of a handler has come: it is open, or the handler has used it, or the supervisor
of the handler has, which has ended with an error. -/
inductive Progress (index : Nat) (deeds : List Deed) (history : List Entry) (e : Engine σ)
    (p : Promise) : Prop
  | waiting : e.isOpen p = true → entriesOf history p = [] → deeds.findSome? (Deed.given? p) = none →
    Progress index deeds history e p
  | given (v : Verdict) : e.isOpen p = false → entriesOf history p = [⟨p, v⟩] →
    deeds.findSome? (Deed.given? p) = some v → Progress index deeds history e p
  | failed (x : Handler) (ending : Ending) (error : CallError) : e.isOpen p = false →
    entriesOf history p = [⟨p, p.verdict (.fail error)⟩] → deeds.findSome? (Deed.given? p) = none →
    e.handlers[index]? = some x → x.state = .ended ending → ending.error? = some error →
    Progress index deeds history e p

namespace Progress

/-- A step that has nothing to do with a promise. -/
theorem keep (h : Progress index deeds history e p) (hs : Step env drift e e')
    (hopen : e'.isOpen p = e.isOpen p) (hspent : entriesOf (spent e e') p = [])
    (hdeeds : ds.findSome? (Deed.given? p) = none) :
    Progress index (deeds ++ ds) (history ++ spent e e') e' p := by
  have hentries : entriesOf (history ++ spent e e') p = entriesOf history p := by
    rw [entriesOf_append, hspent, List.append_nil]
  have hgiven : (deeds ++ ds).findSome? (Deed.given? p) = deeds.findSome? (Deed.given? p) := by
    rw [List.findSome?_append, hdeeds, Option.or_none]
  cases h with
  | waiting ho he hd => exact .waiting (hopen.trans ho) (hentries.trans he) (hgiven.trans hd)
  | given v ho he hd => exact .given v (hopen.trans ho) (hentries.trans he) (hgiven.trans hd)
  | failed x ending error ho he hd hx hst herr =>
    -- a handler that has ended does nothing any more
    obtain ⟨x', hx', -, -, hsame | ⟨r, hr, -⟩⟩ := hs.handler_next hx
    · exact .failed x' ending error (hopen.trans ho) (hentries.trans he) (hgiven.trans hd) hx'
        (hsame.trans hst) herr
    · rw [hst] at hr
      cases hr

/-- The handler uses an open promise. -/
theorem give (h : Progress index deeds history e p) {m : Move} (ho : e.isOpen p = true)
    (ho' : e'.isOpen p = false) (hspent : spent e e' = [⟨p, p.verdict m⟩]) :
    Progress index (deeds ++ [.used p m true]) (history ++ spent e e') e' p := by
  cases h with
  | waiting _ he hd =>
    refine .given (p.verdict m) ho' ?_ ?_
    · rw [entriesOf_append, he, hspent, entriesOf_singleton, if_pos rfl, List.nil_append]
    · rw [List.findSome?_append, hd]
      simp [Deed.given?]
  | given v hused => rw [ho] at hused; cases hused
  | failed x ending error hused => rw [ho] at hused; cases hused

/-- The supervisor fails an open promise. -/
theorem fail (h : Progress index deeds history e p) {x : Handler} {ending : Ending} {error : CallError}
    (ho : e.isOpen p = true) (ho' : e'.isOpen p = false)
    (hspent : spent e e' = [⟨p, p.verdict (.fail error)⟩]) (hx : e'.handlers[index]? = some x)
    (hst : x.state = .ended ending) (herr : ending.error? = some error) :
    Progress index deeds (history ++ spent e e') e' p := by
  cases h with
  | waiting _ he hd =>
    refine .failed x ending error ho' ?_ hd hx hst herr
    rw [entriesOf_append, he, hspent, entriesOf_singleton, if_pos rfl, List.nil_append]
  | given v hused => rw [ho] at hused; cases hused
  | failed x ending error hused => rw [ho] at hused; cases hused

end Progress

/-- An instruction gives nothing to a promise but the one that it uses. -/
theorem findSome?_deeds_eq_none {r : Routine}
    (h : ∀ q m k, r = .complete q m k → e.isOpen q = true → q.number ≠ p.number) :
    (e.deeds r).findSome? (Deed.given? p) = none := by
  cases r with
  | complete q m k =>
    have hgiven : Deed.given? p (.used q m (e.isOpen q)) = none := by
      rw [Deed.given?, if_neg]
      rw [Bool.and_eq_true, beq_iff_eq]
      exact fun hq => h q m k rfl hq.1 hq.2
    rw [deeds, List.findSome?_cons, hgiven]
    rfl
  | _ => rfl

/-- **What an instruction of the handler makes of its promises.** -/
theorem Progress.own (h : Progress index deeds history e p) (he : Reachable env drift blocks e)
    (hb : ∀ s, (blocks s).Proper) {x : Handler} {r : Routine} (hx : e.handlers[index]? = some x)
    (hr : x.state = .running r) (hp : p ∈ x.promises) :
    Progress index (deeds ++ e.deeds r) (history ++ spent e (e.instruct env index r))
      (e.instruct env index r) p := by
  have hg := he.granted hb
  have hin := he.keeps_own hb index x hx
  rw [Handler.Keeps, hr] at hin
  have hs : Step env drift e (e.instruct env index r) := .run e index x r hx hr
  by_cases huse : ∃ q m k, r = .complete q m k ∧ e.isOpen q = true
  · obtain ⟨q, m, k, rfl, ho⟩ := huse
    have hq : q ∈ x.promises := hin.1.1
    have hisOpen : ∀ q', (e.instruct env index (.complete q m k)).isOpen q' =
        if q'.number = q.number then false else e.isOpen q' := fun q' => isOpen_complete ho m q'
    have hspent : spent e (e.instruct env index (.complete q m k)) = [⟨q, q.verdict m⟩] :=
      spent_complete hg hx hq ho rfl rfl
    have hdeeds : e.deeds (.complete q m k) = [.used q m true] := by rw [Engine.deeds, ho]
    by_cases hn : p.number = q.number
    · obtain ⟨-, rfl⟩ := unique_of_nodup hg.numbers hx hx hp hq hn
      rw [hdeeds]
      exact h.give ho ((hisOpen p).trans (if_pos rfl)) hspent
    · refine h.keep hs ((hisOpen p).trans (if_neg hn)) ?_ (findSome?_deeds_eq_none ?_)
      · rw [hspent, entriesOf_singleton, if_neg (Ne.symm hn)]
      · rintro q' m' k' heq -
        cases heq
        exact Ne.symm hn
  · have hopen : ∀ q ∈ e.issued, (e.instruct env index r).isOpen q = e.isOpen q := fun q _ => by
      by_cases hcomplete : ∃ q' m k, r = .complete q' m k
      · obtain ⟨q', m, k, rfl⟩ := hcomplete
        have hused : e.isOpen q' = false := by
          rw [← Bool.not_eq_true]
          exact fun ho => huse ⟨q', m, k, rfl, ho⟩
        exact congrArg (fun e₁ : Bool × Engine σ => e₁.2.isOpen q) (complete_of_used hused m)
      · exact isOpen_instruct fun q' m k heq => absurd ⟨q', m, k, heq⟩ hcomplete
    refine h.keep hs (hopen p (mem_issued hx hp)) ?_ (findSome?_deeds_eq_none ?_)
    · rw [spent_eq_nil hopen]
      rfl
    · exact fun q m k hr' ho => absurd ⟨q, m, k, hr', ho⟩ huse

/-- **What other steps make of the promises of a handler.** -/
theorem Progress.other (h : Progress index deeds history e p) (he : Reachable env drift blocks e)
    (hb : ∀ s, (blocks s).Proper) (hs : Step env drift e e')
    (hnot : ∀ x r, e.handlers[index]? = some x → x.state = .running r → e' ≠ e.instruct env index r)
    {x : Handler} (hx : e.handlers[index]? = some x) (hp : p ∈ x.promises) :
    Progress index deeds (history ++ spent e e') e' p := by
  have hg := he.granted hb
  have hkeep : e'.isOpen p = e.isOpen p → entriesOf (spent e e') p = [] →
      Progress index deeds (history ++ spent e e') e' p := fun hopen hspent => by
    have hkept : Progress index (deeds ++ []) (history ++ spent e e') e' p :=
      h.keep hs hopen hspent rfl
    rwa [List.append_nil] at hkept
  cases hs.dealing he hb with
  | idle hopen =>
    refine hkeep (hopen p (mem_issued hx hp)) ?_
    rw [spent_eq_nil hopen]
    rfl
  | use i y q m hy hq ho hisOpen hspent _ how =>
    by_cases hn : p.number = q.number
    · -- it is the supervisor of the handler who uses the promise
      obtain ⟨rfl, rfl⟩ := unique_of_nodup hg.numbers hx hy hp hq hn
      rw [hx] at hy
      cases hy
      rcases how with ⟨k, hr, heq⟩ | ⟨ending, error, hst, herr, rfl⟩
      · exact absurd heq (hnot x _ hx hr)
      · obtain ⟨x', hx', -, -, hsame | ⟨r, hr, -⟩⟩ := hs.handler_next hx
        · exact h.fail ho ((hisOpen p).trans (if_pos rfl)) hspent hx' (hsame.trans hst) herr
        · rw [hst] at hr
          cases hr
    · refine hkeep ((hisOpen p).trans (if_neg hn)) ?_
      rw [hspent, entriesOf_singleton, if_neg (Ne.symm hn)]

namespace Minutes

/-- **How far the promises of a handler have come.** -/
theorem progress (h : Minutes env drift index e₀ deeds history mail e)
    (he₀ : Reachable env drift blocks e₀) (hb : ∀ s, (blocks s).Proper) {x₀ : Handler}
    (hx₀ : e₀.handlers[index]? = some x₀) (hopen : ∀ p ∈ x₀.promises, e₀.isOpen p = true) :
    ∃ x, e.handlers[index]? = some x ∧ x.promises = x₀.promises ∧
      ∀ p ∈ x.promises, Progress index deeds history e p := by
  induction h with
  | start => exact ⟨x₀, hx₀, rfl, fun p hp => .waiting (hopen p hp) rfl rfl⟩
  | @own deeds history mail e x r h hx hr ih =>
    obtain ⟨y, hy, hps, hprogress⟩ := ih
    rw [hx] at hy
    cases hy
    have he := he₀.steps h.annals.steps
    have hs : Step env drift e (e.instruct env index r) := .run e index x r hx hr
    obtain ⟨x', hx', hps', -⟩ := hs.handler_next hx
    refine ⟨x', hx', hps'.trans hps, fun p hp => ?_⟩
    rw [hps'] at hp
    exact (hprogress p hp).own he hb hx hr hp
  | other h hs hnot ih =>
    obtain ⟨y, hy, hps, hprogress⟩ := ih
    have he := he₀.steps h.annals.steps
    obtain ⟨x', hx', hps', -⟩ := hs.handler_next hy
    refine ⟨x', hx', hps'.trans hps, fun p hp => ?_⟩
    rw [hps'] at hp
    exact (hprogress p hp).other he hb hs hnot hy hp

/-- As long as the worker has not stopped, it is told of every promise that is used. -/
theorem mail_eq (h : Minutes env drift index e₀ deeds history mail e)
    (he₀ : Reachable env drift blocks e₀) (hb : ∀ s, (blocks s).Proper) (hrun : e.stopped = false) :
    mail = history.map Entry.transition := by
  have hstep : ∀ {e e' : Engine σ}, Reachable env drift blocks e → Step env drift e e' →
      e'.stopped = false → e.stopped = false ∧ posted e e' = (spent e e').map Entry.transition := by
    intro e e' he hs hrun'
    have hrun : e.stopped = false := by
      rw [← Bool.not_eq_true] at hrun' ⊢
      exact fun hstopped => hrun' (hs.replies_of_stopped hstopped).1
    refine ⟨hrun, ?_⟩
    cases hs.dealing he hb with
    | idle hopen hposted =>
      rw [hposted, spent_eq_nil hopen]
      rfl
    | use index x p m hx hp ho hisOpen hspent hposted =>
      rw [hposted hrun, hspent]
      rfl
  induction h with
  | start => rfl
  | @own deeds history mail e x r h hx hr ih =>
    obtain ⟨hrun', hposted⟩ := hstep (he₀.steps h.annals.steps) (.run e index x r hx hr) hrun
    rw [List.map_append, ih hrun', hposted]
  | other h hs hnot ih =>
    obtain ⟨hrun', hposted⟩ := hstep (he₀.steps h.annals.steps) hs hrun
    rw [List.map_append, ih hrun', hposted]

/-- The supervisor fails the promises one by one that it finds open. -/
theorem failOpen (h : Minutes env drift index e₀ deeds history mail e) (he : Reachable env drift blocks e)
    (hb : ∀ s, (blocks s).Proper) {x : Handler} {ending : Ending} {error : CallError}
    (hx : e.handlers[index]? = some x) (hst : x.state = .ended ending)
    (herr : ending.error? = some error) {ps : List Promise} (hps : ∀ p ∈ ps, p ∈ x.promises)
    (hn : (ps.map Promise.number).Nodup) :
    ∃ more, Minutes env drift index e₀ deeds
      (history ++ (ps.filter e.isOpen).map fun p => ⟨p, p.verdict (.fail error)⟩) more
      (e.failOpen error ps) := by
  induction ps generalizing history mail e with
  | nil =>
    refine ⟨mail, ?_⟩
    rw [List.filter_nil, List.map_nil, List.append_nil]
    exact h
  | cons p ps ih =>
    rw [List.map_cons, List.nodup_cons] at hn
    have hrest : ∀ q ∈ ps, q ∈ x.promises := fun q hq => hps q (List.mem_cons_of_mem p hq)
    have hs : Step env drift e (e.complete p (.fail error)).2 :=
      .rescue e index x ending error p hx hst herr (hps p List.mem_cons_self)
    have hnot : ∀ y r, e.handlers[index]? = some y → y.state = .running r →
        (e.complete p (.fail error)).2 ≠ e.instruct env index r := fun y r hy hr => by
      rw [hx] at hy
      cases hy
      rw [hst] at hr
      cases hr
    have hx' : (e.complete p (.fail error)).2.handlers[index]? = some x := by
      rw [complete_eq]
      exact hx
    obtain ⟨more, hmore⟩ := ih (h.other hs hnot) (he.step hs) hx' hrest hn.2
    have hfilter : ps.filter (e.complete p (.fail error)).2.isOpen = ps.filter e.isOpen := by
      refine List.filter_congr fun q hq => ?_
      rw [isOpen_complete_eq, closing, bne_iff_ne.2, Bool.and_true]
      exact fun heq => hn.1 (heq ▸ List.mem_map_of_mem hq)
    refine ⟨more, ?_⟩
    rw [hfilter] at hmore
    rw [List.filter_cons]
    by_cases ho : e.isOpen p = true
    · rw [if_pos ho, List.map_cons]
      have hspent : spent e (e.complete p (.fail error)).2 = [⟨p, p.verdict (.fail error)⟩] :=
        spent_complete (he.granted hb) hx (hps p List.mem_cons_self) ho rfl rfl
      rw [hspent, List.append_assoc] at hmore
      exact hmore
    · have hsame : (e.complete p (.fail error)).2 = e := by rw [complete_of_used (by simpa using ho)]
      have hspent : spent e (e.complete p (.fail error)).2 = [] :=
        spent_eq_nil fun q _ => by rw [hsame]
      rw [if_neg ho]
      rw [hspent, List.append_nil] at hmore
      exact hmore

end Minutes

/-! ## The turn of a supervisor -/

theorem handlers_failOpen (e : Engine σ) (error : CallError) (ps : List Promise) :
    (e.failOpen error ps).handlers = e.handlers := by
  induction ps generalizing e with
  | nil => rfl
  | cons p ps ih =>
    have hfirst : (e.complete p (.fail error)).2.handlers = e.handlers := by rw [complete_eq]
    exact (ih (e.complete p (.fail error)).2).trans hfirst

theorem promises_sublist_issued {x : Handler} (hx : e.handlers[index]? = some x) :
    x.promises.Sublist e.issued :=
  List.sublist_flatten_of_mem (List.mem_map_of_mem (Array.mem_toList_iff.2 (Array.mem_of_getElem? hx)))

/-- The supervisor of a handler that failed reports it and fails what is open. -/
theorem exists_supervisorTurn {x : Handler} {ending : Ending} {error : CallError}
    (hx : e.handlers[index]? = some x) (hst : x.state = .ended ending)
    (herr : ending.error? = some error) :
    ∃ m, e.supervisorTurn index = (e.report m).failOpen error x.promises := by
  cases ending with
  | ok => cases herr
  | failed error' =>
    cases herr
    refine ⟨.stageHandlerFailed x.stage.name x.promises.length error.message, ?_⟩
    simp only [supervisorTurn, hx, hst]
  | crashed message =>
    cases herr
    refine ⟨.stagePanicked x.stage.name x.promises.length message, ?_⟩
    simp only [supervisorTurn, hx, hst]

theorem Minutes.supervisorTurn (h : Minutes env drift index e₀ deeds history mail e)
    (he : Reachable env drift blocks e) (hb : ∀ s, (blocks s).Proper) {x : Handler} {ending : Ending}
    {error : CallError} (hx : e.handlers[index]? = some x) (hst : x.state = .ended ending)
    (herr : ending.error? = some error) :
    (∃ more, Minutes env drift index e₀ deeds
      (history ++ (x.promises.filter e.isOpen).map fun p => ⟨p, p.verdict (.fail error)⟩) more
      (e.supervisorTurn index)) ∧ (e.supervisorTurn index).handlers = e.handlers := by
  obtain ⟨m, hturn⟩ := exists_supervisorTurn hx hst herr
  have hs : Step env drift e (e.report m) := .report e m
  have hnot : ∀ y r, e.handlers[index]? = some y → y.state = .running r →
      e.report m ≠ e.instruct env index r := fun y r hy hr => by
    rw [hx] at hy
    cases hy
    rw [hst] at hr
    cases hr
  have hn : (x.promises.map Promise.number).Nodup :=
    ((promises_sublist_issued hx).map Promise.number).nodup (he.granted hb).numbers
  have hspent : spent e (e.report m) = [] := spent_eq_nil fun _ _ => rfl
  have hreport := h.other hs hnot
  rw [hspent, List.append_nil] at hreport
  rw [hturn]
  exact ⟨hreport.failOpen (he.step hs) hb hx hst herr (fun _ hp => hp) hn,
    handlers_failOpen (e.report m) error x.promises⟩

end

/-! ## Results -/

theorem Annals.trans {e₁ e₂ : Engine σ} {history history' : List Entry}
    (h : Annals env drift e₀ history e₁) (h' : Annals env drift e₁ history' e₂) :
    Annals env drift e₀ (history ++ history') e₂ := by
  induction h' with
  | start =>
    rw [List.append_nil]
    exact h
  | step _ hs ih =>
    rw [← List.append_assoc]
    exact ih.step hs

theorem Annals.exists_of_reachable (h : Reachable env drift blocks e) :
    ∃ world history, Annals env drift (Engine.start blocks world) history e := by
  induction h with
  | start world => exact ⟨world, [], .start⟩
  | step _ hs ih =>
    obtain ⟨world, history, h⟩ := ih
    exact ⟨world, _, h.step hs⟩

/-- The results of a task grow by its history. -/
theorem Annals.results_from {history : List Entry} (h : Annals env drift e₀ history e)
    (he₀ : Reachable env drift blocks e₀) (hb : ∀ s, (blocks s).Proper) {i : Nat} {t : Task}
    (ht : e₀.tasks[i]? = some t) :
    ∃ t', e.tasks[i]? = some t' ∧ t'.results.items = t.results.items ++ recorded history i := by
  obtain ⟨world, before, hbefore⟩ := Annals.exists_of_reachable he₀
  obtain ⟨t', ht', -⟩ := h.steps.grows i t ht
  refine ⟨t', ht', ?_⟩
  rw [← (hbefore.trans h).results hb ht', ← hbefore.results hb ht, recorded_append]

/-! ## Failed handlers -/

/-- Each of some promises that a handler was given is used, and there is one entry about it in the
history: it bears the verdict that the handler asked for, if it did, or else a failure with the error of
the handler, which sends the task on its own way of failure.  The results of every task have grown by the
entries about that task, and the worker, if it has not stopped, was sent one transition for each entry. -/
structure UsedOnce (ps : List Promise) (deeds : List Deed) (error : CallError) (history : List Entry)
    (mail : List Command) (e₀ e : Engine σ) : Prop where
  used : ∀ p ∈ ps, e.isOpen p = false
  once : ∀ p ∈ ps, entriesOf history p = [⟨p, (deeds.findSome? (Deed.given? p)).getD
    (.failure error (p.descriptor.strategy.next p.stage false))⟩]
  tasks : ∀ p ∈ ps, ∃ t, e.tasks[p.task]? = some t ∧ p.descriptor = t.descriptor
  results : ∀ (i : Nat) (t : Task), e₀.tasks[i]? = some t → ∃ t', e.tasks[i]? = some t' ∧
    t'.results.items = t.results.items ++ recorded history i
  mail : e.stopped = false → mail = history.map Entry.transition

/-- **A handler that fails strands no task**: whichever of its promises it has used, in whatever order
and with whatever verdicts, when it ends with an error or crashes, its supervisor fails those that are
open, so that every promise was used once, by one of the two. -/
theorem strands_no_task (hb : ∀ s, (blocks s).Proper) (he₀ : Reachable env drift blocks e₀)
    {index : Nat} {h : Handler} (hh : e₀.handlers[index]? = some h)
    (hopen : ∀ p ∈ h.promises, e₀.isOpen p = true) {deeds : List Deed} {history : List Entry}
    {mail : List Command} (hrun : Minutes env drift index e₀ deeds history mail e) {x : Handler}
    {ending : Ending} {error : CallError} (hx : e.handlers[index]? = some x)
    (hst : x.state = .ended ending) (herr : ending.error? = some error) :
    let rescued : List Entry := (h.promises.filter e.isOpen).map fun p =>
      ⟨p, .failure error (p.descriptor.strategy.next p.stage false)⟩
    ∃ more, Minutes env drift index e₀ deeds (history ++ rescued) more (e.supervisorTurn index) ∧
      UsedOnce h.promises deeds error (history ++ rescued) more e₀ (e.supervisorTurn index) := by
  intro rescued
  have he := he₀.steps hrun.annals.steps
  obtain ⟨y, hy, hps, hbefore⟩ := hrun.progress he₀ hb hh hopen
  rw [hx] at hy
  cases hy
  obtain ⟨⟨more, hmore⟩, hhandlers⟩ := hrun.supervisorTurn he hb hx hst herr
  rw [hps] at hmore
  obtain ⟨z, hz, hpz, hafter⟩ := hmore.progress he₀ hb hh hopen
  rw [hhandlers, hx] at hz
  cases hz
  rw [hps] at hbefore hafter
  have he' := he₀.steps hmore.annals.steps
  -- about every promise there is an entry
  have hentry : ∀ p ∈ h.promises, entriesOf (history ++ rescued) p ≠ [] := fun p hp hnil => by
    rw [entriesOf_append, List.append_eq_nil_iff] at hnil
    cases hbefore p hp with
    | waiting ho =>
      have hmem : (⟨p, .failure error (p.descriptor.strategy.next p.stage false)⟩ : Entry) ∈ rescued :=
        List.mem_map_of_mem (List.mem_filter.2 ⟨hp, ho⟩)
      exact List.filter_eq_nil_iff.1 hnil.2 _ hmem (beq_self_eq_true _)
    | given v _ hentries => exact absurd (hentries.symm.trans hnil.1) (List.cons_ne_nil _ _)
    | failed z ending' error' _ hentries =>
      exact absurd (hentries.symm.trans hnil.1) (List.cons_ne_nil _ _)
  refine ⟨more, hmore, fun p hp => ?_, fun p hp => ?_, fun p hp => ?_, fun i t ht =>
    hmore.annals.results_from he₀ hb ht, hmore.mail_eq he₀ hb⟩
  · cases hafter p hp with
    | waiting _ hentries => exact absurd hentries (hentry p hp)
    | given v hused => exact hused
    | failed z ending' error' hused => exact hused
  · cases hafter p hp with
    | waiting _ hentries => exact absurd hentries (hentry p hp)
    | given v _ hentries hgiven => exact hentries.trans (by rw [hgiven]; rfl)
    | failed z ending' error' _ hentries hgiven hz hst' herr' =>
      rw [hhandlers, hx] at hz
      cases hz
      rw [hst] at hst'
      cases hst'
      rw [herr] at herr'
      cases herr'
      exact hentries.trans (by rw [hgiven]; rfl)
  · have hz : (e.supervisorTurn index).handlers[index]? = some x := by rw [hhandlers, hx]
    exact (he'.granted hb).tasks p (mem_issued hz (hps ▸ hp))

/-- A block that crashes when it has passed the first task of a window on. -/
def halfway : Block where
  window := some (.ofMillis 10)
  onTask p := .complete p (.follow true) fun _ => .finish (.crashed "boom")
  onWindow
    | [] => .finish .ok
    | p :: _ => .complete p (.follow true) fun _ => .finish (.crashed "boom")

theorem proper_halfway : halfway.Proper where
  onTask _ := ⟨⟨List.mem_cons_self, trivial⟩, fun _ => .inr trivial⟩
  onWindow
    | [] => .inl rfl
    | _ :: _ => ⟨⟨List.mem_cons_self, trivial⟩, fun _ => .inr trivial⟩

theorem strands_no_task_halfway :
    let pong := { ping with method := "pong" }
    let asked := ((start (fun _ => halfway) ()).submit ping).2.submit pong
    let e₀ := asked.2.play .crashing
      [.work, .work, .openWindow .initial, .gather .initial, .pass 10 3, .closeWindow .initial]
    let e := e₀.play .crashing [.run 0, .run 0]
    ∃ (h : Handler) (deeds : List Deed) (history : List Entry) (mail : List Command),
      e₀.handlers[0]? = some h ∧ h.promises.length = 2 ∧
      Minutes .crashing Eq 0 e₀ deeds history mail (e.supervisorTurn 0) ∧
      UsedOnce h.promises deeds (.crashed "boom") history mail e₀ (e.supervisorTurn 0) ∧
      (e.supervisorTurn 0).stopped = false ∧
      (e.supervisorTurn 0).tasks.toList.map (fun t => t.results.items) =
        [[.route [.getFromNet]], [.failure (.crashed "boom") []]] := by
  intro pong asked e₀ e
  have he₀ : Reachable .crashing Eq (fun _ => halfway) e₀ :=
    (((Reachable.start ()).step (.submit _ ping)).step (.submit _ pong)).steps
      (steps_iff_play.2 ⟨_, rfl⟩)
  have hgiven : e₀.handlers[0]?.any
      (fun h => h.promises.length == 2 && h.promises.all e₀.isOpen) = true := by decide +kernel
  have hleft : (e.handlers[0]?.bind (Handler.leaves? · 0)).map Prod.fst = some (.crashed "boom") := by
    decide +kernel
  obtain ⟨h, hh, hpromises⟩ := (Option.any_eq_true _ _).1 hgiven
  rw [Bool.and_eq_true, beq_iff_eq, List.all_eq_true] at hpromises
  obtain ⟨⟨error, p⟩, hbind, rfl⟩ := Option.map_eq_some_iff.1 hleft
  obtain ⟨x, hx, hleaves⟩ := Option.bind_eq_some_iff.1 hbind
  obtain ⟨ending, hst, herr, -⟩ := Handler.leaves?_eq_some.1 hleaves
  obtain ⟨deeds, history, mail, hrun⟩ : ∃ deeds history mail,
      Minutes .crashing Eq 0 e₀ deeds history mail e :=
    Minutes.exists_of_steps 0 (steps_iff_play.2 ⟨_, rfl⟩)
  obtain ⟨more, hmore, honce⟩ :=
    strands_no_task (fun _ => proper_halfway) he₀ hh hpromises.2 hrun hx hst herr
  exact ⟨h, deeds, _, more, hh, hpromises.1, hmore, honce, by decide +kernel, by decide +kernel⟩

end Engine
end RpcFlow
