import RpcFlow.Proofs.Engine.Agreement
import RpcFlow.Proofs.Engine.Bare
import RpcFlow.Proofs.Engine.BuiltIn

/-!
# Two engines side by side

An engine in a world whose cache is of no use is followed by a second one, in the same world but for a
cache that never has anything.  The handlers of the second engine are ahead of those of the first only
where these have found something that they read and report before they go on as if there were nothing.
Everything else is done by both engines at the same time, and they cannot be told apart.

* `Outside`, `Store`, `Surroundings` — worlds that differ in the cache.
* `Routine.Lags`, `Routine.Forgiving` — a useless answer of the cache delays a routine, and does no more;
  `Stages.forgiving_onTask`, `Stages.uncached_onTask` say so of the built-in stages.
* `Engine.Luckless` — the cache is of no use in the run of a schedule; `Engine.straightened` — the
  schedule of the second engine.
* `Engine.Twins` — two engines that are side by side; `Engine.Twins.play` — **they stay so**.
-/

set_option autoImplicit false

namespace RpcFlow

/-! ## Worlds that differ in the cache -/

/-- The world outside of an engine apart from the cache: transports and a validator, which may keep a
state, and a reader of results, which does not. -/
structure Outside (τ : Type) where
  fetch : Moment → String → WireCall → τ → Duration × WireOutcome × τ
  decode : Option String → ResultType → Outcome Json
  validate : Json → τ → Outcome Unit × τ

/-- A cache of any kind. -/
structure Store (κ : Type) where
  read : Moment → String → κ → Outcome (Option String) × κ
  write : Moment → String → String → Duration → κ → Outcome Unit × κ

/-- The cache that never has anything and takes everything. -/
def Store.missing : Store Unit where
  read _ _ _ := (.done none, ())
  write _ _ _ _ _ := (.done (), ())

/-- The state of a world, with the calls that transports have received. -/
structure Surroundings (τ κ : Type) where
  calls : List (Moment × String × WireCall)
  state : τ
  cache : κ

/-- A world with a cache. -/
def Outside.environment {τ κ : Type} (o : Outside τ) (c : Store κ) :
    Environment (Surroundings τ κ) where
  fetch := fun now transport call w =>
    let (delay, outcome, state) := o.fetch now transport call w.state
    (delay, outcome, { w with calls := w.calls ++ [(now, transport, call)], state })
  readCache := fun now key w =>
    let (outcome, cache) := c.read now key w.cache
    (outcome, { w with cache })
  writeCache := fun now key value lifetime w =>
    let (outcome, cache) := c.write now key value lifetime w.cache
    (outcome, { w with cache })
  decode := fun body type w => (o.decode body type, w)
  validate := fun value w =>
    let (outcome, state) := o.validate value w.state
    (outcome, { w with state })

/-- The stages that ask the cache. -/
def Stage.asksCache (s : Stage) : Bool := s == .getFromCache || s == .saveToCache

namespace Routine

variable {τ : Type}

/-- Does a routine read a text or report something next? -/
def isAside : Routine → Bool
  | report _ _ => true
  | decode _ _ _ => true
  | _ => false

/-- A routine that does not ask the cache. -/
def Uncached : Routine → Prop
  | finish _ => True
  | look _ k => ∀ x, Uncached (k x)
  | complete _ _ k => ∀ x, Uncached (k x)
  | deliver _ _ k => ∀ x, Uncached (k x)
  | fetch _ _ k => ∀ x, Uncached (k x)
  | readCache _ _ => False
  | writeCache _ _ _ _ => False
  | decode _ _ k => ∀ x, Uncached (k x)
  | validate _ k => ∀ x, Uncached (k x)
  | announce _ _ k => Uncached k
  | report _ k => Uncached k
  | setFlag _ _ _ k => Uncached k
  | sleep _ k => Uncached k
  | count _ k => ∀ x, Uncached (k x)
  | note _ _ k => Uncached k

/-- The first routine comes to the second by failing to read texts and by reporting it. -/
inductive Lags (o : Outside τ) : Routine → Routine → Prop
  | level (r : Routine) : Lags o r r
  | report {m : Message} {k r : Routine} : Lags o k r → Lags o (.report m k) r
  | decode {body : Option String} {type : ResultType} {k : Outcome Json → Routine} {r : Routine}
    {error : CallError} : o.decode body type = .failed error → Lags o (k (.failed error)) r →
    Lags o (.decode body type k) r

end Routine

/-- An answer of a cache that is of no use to a request: an error, nothing, or a text that does not read
as a value of the declared type. -/
def Outside.Useless {τ : Type} (o : Outside τ) (d : Descriptor) : Outcome (Option String) → Prop
  | .crashed _ => False
  | .failed _ => True
  | .done none => True
  | .done (some text) => ∃ error, o.decode (some text) d.resultType = .failed error

/-- A routine that does nothing but look, use promises and ask the cache, and that goes on after each
useless answer of the cache as it does when there is nothing. -/
def Routine.Forgiving {τ : Type} (o : Outside τ) (ps : List Promise) : Routine → Prop
  | .finish _ => True
  | .look _ k => ∀ x, Forgiving o ps (k x)
  | .complete _ _ k => ∀ x, Forgiving o ps (k x)
  | .readCache _ k =>
    (∀ x, (∀ p ∈ ps, o.Useless p.descriptor x) → Lags o (k x) (k (.done none))) ∧
      Forgiving o ps (k (.done none))
  | .writeCache _ _ _ k =>
    (∀ x, (∀ message, x ≠ .crashed message) → Lags o (k x) (k (.done ()))) ∧
      Forgiving o ps (k (.done ()))
  | _ => False

/-! ## The built-in stages -/

namespace Stages

variable {τ : Type} {k : Routine}

theorem uncached_failAll (error : CallError) (ps : List Promise) : (failAll error ps).Uncached := by
  induction ps with
  | nil => exact trivial
  | cons p ps ih => exact fun _ => ih

theorem uncached_announceAll (headers : Dict String) (hk : k.Uncached) (ps : List Promise) :
    (announceAll headers k ps).Uncached := by
  induction ps with
  | nil => exact hk
  | cons p ps ih => exact ih

theorem uncached_reportAll (hk : k.Uncached) (ms : List Message) : (reportAll k ms).Uncached := by
  induction ms with
  | nil => exact hk
  | cons m ms ih => exact ih

theorem uncached_settleWith (p : Promise) (answer : Json) (hk : k.Uncached) :
    (settleWith p answer k).Uncached := by
  simp only [settleWith]
  split
  · exact fun _ => hk
  · exact fun _ => hk
  · intro x
    cases x with
    | crashed message => exact trivial
    | failed error => exact fun _ => hk
    | done payload =>
      intro y
      cases y with
      | crashed message => exact trivial
      | failed error => exact fun _ => hk
      | done u => exact fun _ => hk

theorem uncached_settleEach (entries : Batch.Entries) (ps : List Promise) :
    (settleEach entries ps).Uncached := by
  induction ps generalizing entries with
  | nil => exact uncached_reportAll (k := .finish .ok) trivial _
  | cons p ps ih =>
    unfold settleEach
    split
    · exact uncached_settleWith p _ (ih _)
    · exact fun _ => ih _

theorem uncached_sendAlone (p : Promise) (hk : k.Uncached) : (sendAlone p k).Uncached := by
  intro x
  cases x with
  | crashed message => exact trivial
  | failed error => exact fun _ => hk
  | answered response =>
    intro y
    cases y with
    | crashed message => exact trivial
    | failed error => exact fun _ => hk
    | done answer => exact uncached_settleWith p answer hk

theorem uncached_sendTogether (ps : List Promise) (headers : Dict String) :
    (sendTogether ps headers).Uncached := by
  obtain _ | ⟨p, ps⟩ := ps
  · exact trivial
  intro x
  cases x with
  | crashed message => exact trivial
  | failed error => exact uncached_failAll _ _
  | answered response =>
    refine uncached_announceAll _ ?_ _
    intro y
    cases y with
    | crashed message => exact trivial
    | failed error => exact uncached_failAll _ _
    | done answer =>
      simp only [settleAll]
      split
      · exact uncached_reportAll (uncached_settleEach _ _) _
      · exact uncached_failAll _ _

theorem uncached_putOff (reason : DeferReason) (ps : List Promise) (hk : k.Uncached) :
    (putOff reason ps k).Uncached := by
  have hback : ∀ ps : List Promise, (sendBack k ps).Uncached := by
    intro ps
    induction ps with
    | nil => exact hk
    | cons p ps ih => exact fun _ => ih
  unfold putOff
  split
  · exact hk
  · exact hback ps

theorem uncached_sendWindow (ps : List Promise) : (sendWindow ps).Uncached := by
  obtain ⟨s, hs⟩ := exists_sorting ps
  rw [hs]
  refine uncached_putOff _ _ (uncached_putOff _ _ (uncached_putOff _ _ ?_))
  unfold unlessAlone
  split
  · exact uncached_sendAlone _ (k := .finish .ok) trivial
  · exact uncached_sendTogether _ _

/-- **Only the two stages of the cache ask the cache.** -/
theorem uncached_onTask (window : Duration) (retries : Nat) {s : Stage} (hs : s.asksCache = false)
    (p : Promise) : ((block window retries s).onTask p).Uncached := by
  cases s with
  | initial => exact fun _ => trivial
  | checkAuthToken => exact fun _ => trivial
  | getFromNet => exact uncached_sendAlone p (k := .finish .ok) trivial
  | deliverResult =>
    intro view
    simp only
    split
    · exact trivial
    · exact fun _ _ => trivial
  | deliverError => exact fun view _ _ => trivial
  | resolveError =>
    intro view
    simp only
    split
    · exact fun _ => trivial
    · exact fun _ => trivial
  | getFromCache => exact Bool.noConfusion hs
  | saveToCache => exact Bool.noConfusion hs

/-- **To the two stages of the cache** a useless answer is as good as none. -/
theorem forgiving_onTask (o : Outside τ) (window : Duration) (retries : Nat) {s : Stage}
    (hs : s.asksCache = true) (p : Promise) :
    ((block window retries s).onTask p).Forgiving o [p] := by
  have hp : p ∈ [p] := List.mem_cons_self
  cases s with
  | getFromCache =>
    refine ⟨fun x hx => ?_, fun _ => trivial⟩
    have huseless := hx p hp
    cases x with
    | crashed message => exact huseless.elim
    | failed error => exact .report (.level _)
    | done found =>
      cases found with
      | none => exact .level _
      | some text =>
        obtain ⟨error, hfail⟩ := huseless
        exact .decode hfail (.report (.level _))
  | saveToCache =>
    intro view
    simp only
    split
    · exact fun _ => trivial
    · refine ⟨fun x hx => ?_, fun _ => trivial⟩
      cases x with
      | crashed message => exact absurd rfl (hx message)
      | failed error => exact .report (.level _)
      | done u => exact .level _
  | _ => exact Bool.noConfusion hs

end Stages

/-- Is a handler of a stage of the cache about to read a text or to report something? -/
def Handler.dallies (h : Handler) : Bool :=
  match h.state with
  | .running r => h.stage.asksCache && r.isAside
  | .ended _ => false

namespace Engine

/-! ## Schedules -/

section

variable {σ : Type}

/-- On this occasion a handler of a stage of the cache reads a text or reports something. -/
def dallies (e : Engine σ) : Occasion → Bool
  | .run index => e.handlers[index]?.any Handler.dallies
  | _ => false

/-- A schedule without the occasions on which handlers of the stages of the cache read what they have
found and report what is wrong with it. -/
def straightened (env : Environment σ) : Engine σ → List Occasion → List Occasion
  | _, [] => []
  | e, a :: schedule =>
    if e.dallies a then straightened env (e.act env a) schedule
    else a :: straightened env (e.act env a) schedule

end

variable {τ κ κ' : Type} {o : Outside τ} {c : Store κ}

/-- What the cache answers on an occasion, if it is asked, is of no use: a lookup brings nothing that the
request of the handler could use, and a write, whether it fails or not, does not crash. -/
def Mishap (o : Outside τ) (c : Store κ) (e : Engine (Surroundings τ κ)) : Occasion → Prop
  | .run index => ∀ x, e.handlers[index]? = some x →
    (∀ key k, x.state = .running (.readCache key k) → ∀ p ∈ x.promises,
      o.Useless p.descriptor (c.read e.now key e.world.cache).1) ∧
    ∀ key value lifetime k, x.state = .running (.writeCache key value lifetime k) →
      ∀ message, (c.write e.now key value lifetime e.world.cache).1 ≠ .crashed message
  | _ => True

/-- The cache is of no use in the whole run of a schedule. -/
def Luckless (o : Outside τ) (c : Store κ) : Engine (Surroundings τ κ) → List Occasion → Prop
  | _, [] => True
  | e, a :: schedule => Mishap o c e a ∧ Luckless o c (e.act (o.environment c) a) schedule

/-! ## Two runs side by side -/

/-- How two handlers of a stage stand to each other: both have ended, both are about to do the same and
will not ask the cache, or the first is behind the second. -/
inductive Pace (o : Outside τ) (s : Stage) (ps : List Promise) : HandlerState → HandlerState → Prop
  | ended (ending : Ending) : Pace o s ps (.ended ending) (.ended ending)
  | level {r : Routine} : s.asksCache = false → r.Uncached → Pace o s ps (.running r) (.running r)
  | behind {r r' : Routine} : s.asksCache = true → r.Lags o r' → r'.Forgiving o ps →
    Pace o s ps (.running r) (.running r')

/-- Two handlers of one stage with the same promises that have come equally far, or the first of which is
behind the second. -/
def Abreast (o : Outside τ) (x y : Handler) : Prop :=
  y.stage = x.stage ∧ y.promises = x.promises ∧ Pace o x.stage x.promises x.state y.state

/-- Two engines that have come equally far, in worlds that differ in the cache. -/
structure Twins (o : Outside τ) (e : Engine (Surroundings τ κ)) (f : Engine (Surroundings τ κ')) :
    Prop where
  agree : Agree e f
  blocks : ∃ window retries, e.blocks = Stages.block window retries
  calls : f.world.calls = e.world.calls
  state : f.world.state = e.world.state
  size : f.handlers.size = e.handlers.size
  handlers : ∀ (i : Nat) (x y : Handler), e.handlers[i]? = some x → f.handlers[i]? = some y →
    Abreast o x y

namespace Twins

variable {e e' : Engine (Surroundings τ κ)} {f f' : Engine (Surroundings τ κ')}

theorem now (h : Twins o e f) : f.now = e.now := (congrArg Engine.now h.agree).symm

/-- The other handler in the same place. -/
theorem other (h : Twins o e f) {i : Nat} {x : Handler} (hx : e.handlers[i]? = some x) :
    ∃ y, f.handlers[i]? = some y ∧ Abreast o x y := by
  obtain ⟨hi, -⟩ := Array.getElem?_eq_some_iff.1 hx
  have hlt : i < f.handlers.size := h.size.symm ▸ hi
  have hy : f.handlers[i]? = some f.handlers[i] := Array.getElem?_eq_getElem hlt
  exact ⟨_, hy, h.handlers i x _ hx hy⟩

theorem other_none (h : Twins o e f) {i : Nat} (hx : e.handlers[i]? = none) :
    f.handlers[i]? = none := by
  rw [Array.getElem?_eq_none_iff] at hx ⊢
  exact h.size.symm ▸ hx

/-- A change that leaves handlers alone. -/
theorem change (h : Twins o e f) (hagree : Agree e' f') (hcalls : f'.world.calls = e'.world.calls)
    (hstate : f'.world.state = e'.world.state) (hb : e'.blocks = e.blocks)
    (he : e'.handlers = e.handlers) (hf : f'.handlers = f.handlers) : Twins o e' f' where
  agree := hagree
  blocks := hb ▸ h.blocks
  calls := hcalls
  state := hstate
  size := by rw [he, hf, h.size]
  handlers := by
    rw [he, hf]
    exact h.handlers

/-- A change that concerns neither world nor handlers. -/
theorem quiet (h : Twins o e f) (hagree : Agree e' f') (he : e'.world = e.world)
    (hf : f'.world = f.world) (hb : e'.blocks = e.blocks) (hhe : e'.handlers = e.handlers)
    (hhf : f'.handlers = f.handlers) : Twins o e' f' :=
  h.change hagree (by rw [he, hf, h.calls]) (by rw [he, hf, h.state]) hb hhe hhf

/-- A change of one handler. -/
theorem modify (h : Twins o e f) (i : Nat) (g g' : Handler → Handler) (hagree : Agree e' f')
    (he : e'.world = e.world) (hf : f'.world = f.world) (hb : e'.blocks = e.blocks)
    (hhe : e'.handlers = e.handlers.modify i g) (hhf : f'.handlers = f.handlers.modify i g')
    (hstep : ∀ x y, e.handlers[i]? = some x → Abreast o x y → Abreast o (g x) (g' y)) :
    Twins o e' f' where
  agree := hagree
  blocks := hb ▸ h.blocks
  calls := by rw [he, hf, h.calls]
  state := by rw [he, hf, h.state]
  size := by rw [hhe, hhf, Array.size_modify, Array.size_modify, h.size]
  handlers := by
    intro j x' y' hx' hy'
    rw [hhe, Array.getElem?_modify] at hx'
    rw [hhf, Array.getElem?_modify] at hy'
    by_cases hj : i = j
    · rw [if_pos hj] at hx' hy'
      obtain ⟨x, hx, rfl⟩ := Option.map_eq_some_iff.1 hx'
      obtain ⟨y, hy, rfl⟩ := Option.map_eq_some_iff.1 hy'
      exact hstep x y (hj ▸ hx) (h.handlers j x y hx hy)
    · rw [if_neg hj] at hx' hy'
      exact h.handlers j x' y' hx' hy'

theorem resume (h : Twins o e f) {i : Nat} {r r' : Routine}
    (hpace : ∀ x, e.handlers[i]? = some x → Pace o x.stage x.promises (.running r) (.running r')) :
    Twins o (e.resume i r) (f.resume i r') :=
  h.modify i (fun x => { x with state := .running r }) (fun y => { y with state := .running r' })
    h.agree rfl rfl rfl rfl rfl fun x _ hx hxy => ⟨hxy.1, hxy.2.1, hpace x hx⟩

theorem endHandler (h : Twins o e f) (i : Nat) (ending : Ending) :
    Twins o (e.endHandler i ending) (f.endHandler i ending) :=
  h.modify i (fun x => { x with state := .ended ending }) (fun y => { y with state := .ended ending })
    (h.agree.endHandler i i ending ending) (by rw [endHandler_eq]) (by rw [endHandler_eq])
    (by rw [endHandler_eq]) (by rw [endHandler_eq]) (by rw [endHandler_eq])
    fun _ _ _ hxy => ⟨hxy.1, hxy.2.1, .ended ending⟩

/-- A handler is started. -/
theorem push (h : Twins o e f) (s : Stage) (ps : List Promise) (r : Routine) (hagree : Agree e' f')
    (he : e'.world = e.world) (hf : f'.world = f.world) (hb : e'.blocks = e.blocks)
    (hhe : e'.handlers = e.handlers.push ⟨s, ps, .running r, false⟩)
    (hhf : f'.handlers = f.handlers.push ⟨s, ps, .running r, false⟩)
    (hpace : Pace o s ps (.running r) (.running r)) : Twins o e' f' where
  agree := hagree
  blocks := hb ▸ h.blocks
  calls := by rw [he, hf, h.calls]
  state := by rw [he, hf, h.state]
  size := by rw [hhe, hhf, Array.size_push, Array.size_push, h.size]
  handlers := by
    intro j x y hx hy
    rw [hhe, Array.getElem?_push] at hx
    rw [hhf, Array.getElem?_push, h.size] at hy
    split at hx
    · rename_i hj
      rw [if_pos hj] at hy
      cases hx
      cases hy
      exact ⟨rfl, rfl, hpace⟩
    · rename_i hj
      rw [if_neg hj] at hy
      exact h.handlers j x y hx hy

theorem complete (h : Twins o e f) (p : Promise) (m : Move) :
    (e.complete p m).1 = (f.complete p m).1 ∧ Twins o (e.complete p m).2 (f.complete p m).2 := by
  obtain ⟨hanswer, hafter⟩ := h.agree.complete p m
  refine ⟨hanswer, h.quiet hafter ?_ ?_ ?_ ?_ ?_⟩
  all_goals rw [complete_eq]

/-- A handler that does not ask the cache does the same in both engines. -/
theorem instruct_uncached (h : Twins o e f) {c' : Store κ'} {i : Nat} {x : Handler} {r : Routine}
    (hx : e.handlers[i]? = some x) (hstage : x.stage.asksCache = false) (hr : r.Uncached) :
    Twins o (e.instruct (o.environment c) i r) (f.instruct (o.environment c') i r) := by
  have hgo : ∀ {e₁ : Engine (Surroundings τ κ)} {f₁ : Engine (Surroundings τ κ')} {r' : Routine},
      Twins o e₁ f₁ → e₁.handlers = e.handlers → r'.Uncached →
      Twins o (e₁.resume i r') (f₁.resume i r') := by
    intro e₁ f₁ r' h₁ he₁ hr'
    refine h₁.resume fun x' hx' => ?_
    rw [he₁, hx] at hx'
    cases hx'
    exact .level hstage hr'
  cases r with
  | finish ending => exact h.endHandler i ending
  | look p k =>
    have hview : f.view? p = e.view? p := (congrArg (fun b => b.view? p) h.agree).symm
    simp only [instruct, hview]
    cases e.view? p with
    | none => exact h.endHandler i .ok
    | some view => exact hgo h rfl (hr view)
  | complete p m k =>
    obtain ⟨hanswer, hafter⟩ := h.complete p m
    simp only [instruct, hanswer]
    exact hgo hafter (by rw [complete_eq]) (hr _)
  | deliver p v k =>
    obtain ⟨hanswer, hafter⟩ := h.agree.deliver p.task v
    simp only [instruct, hanswer]
    refine hgo (h.quiet hafter ?_ ?_ ?_ ?_ ?_) (by rw [deliver_eq]) (hr _)
    all_goals rw [deliver_eq]
  | fetch transport call k =>
    have hfetch : o.fetch f.now transport call f.world.state =
        o.fetch e.now transport call e.world.state := by rw [h.now, h.state]
    simp only [instruct, Outside.environment, hfetch]
    exact hgo (h.change h.agree (by rw [h.calls, h.now]) rfl rfl rfl rfl) rfl (hr _)
  | decode body type k => exact hgo h rfl (hr _)
  | validate value k =>
    simp only [instruct, Outside.environment, h.state]
    exact hgo (h.change h.agree h.calls rfl rfl rfl rfl) rfl (hr _)
  | announce method headers k =>
    exact hgo (h.quiet (.lift (F := fun e => e.announce method headers) (fun _ => rfl) h.agree)
      rfl rfl rfl rfl rfl) rfl hr
  | report m k => exact hgo (h.quiet h.agree rfl rfl rfl rfl rfl) rfl hr
  | setFlag p key value k =>
    exact hgo (h.quiet (.lift (F := fun e => e.setFlag p.descriptor.strategy key value)
      (fun _ => rfl) h.agree) rfl rfl rfl rfl rfl) rfl hr
  | sleep d k => exact hgo h rfl hr
  | count stage k =>
    have hcount : (f.tally stage).1 = (e.tally stage).1 :=
      (congrArg (fun b => (b.tally stage).1) h.agree).symm
    simp only [instruct, hcount]
    exact hgo (h.quiet (.lift (F := fun e => (e.tally stage).2) (fun _ => rfl) h.agree)
      rfl rfl rfl rfl rfl) rfl (hr _)
  | note p n k =>
    exact hgo (h.quiet (.lift (F := fun e => { e with notes := (e.now, p, n) :: e.notes })
      (fun _ => rfl) h.agree) rfl rfl rfl rfl rfl) rfl hr
  | readCache key k => exact hr.elim
  | writeCache key value lifetime k => exact hr.elim

/-- A handler that asks a cache of no use goes on as one that asks a cache without entries, or falls
behind it. -/
theorem instruct_forgiving {f : Engine (Surroundings τ Unit)} (h : Twins o e f) {i : Nat} {x : Handler}
    {r : Routine} (hx : e.handlers[i]? = some x) (hst : x.state = .running r)
    (hm : Mishap o c e (.run i)) (hstage : x.stage.asksCache = true) (hr : r.Forgiving o x.promises) :
    Twins o (e.instruct (o.environment c) i r) (f.instruct (o.environment .missing) i r) := by
  have hgo : ∀ {e₁ : Engine (Surroundings τ κ)} {f₁ : Engine (Surroundings τ Unit)} {r₁ r₂ : Routine},
      Twins o e₁ f₁ → e₁.handlers = e.handlers → r₁.Lags o r₂ → r₂.Forgiving o x.promises →
      Twins o (e₁.resume i r₁) (f₁.resume i r₂) := by
    intro e₁ f₁ r₁ r₂ h₁ he₁ hlags hforgiving
    refine h₁.resume fun x' hx' => ?_
    rw [he₁, hx] at hx'
    cases hx'
    exact .behind hstage hlags hforgiving
  cases r with
  | finish ending => exact h.endHandler i ending
  | look p k =>
    have hview : f.view? p = e.view? p := (congrArg (fun b => b.view? p) h.agree).symm
    simp only [instruct, hview]
    cases e.view? p with
    | none => exact h.endHandler i .ok
    | some view => exact hgo h rfl (.level _) (hr view)
  | complete p m k =>
    obtain ⟨hanswer, hafter⟩ := h.complete p m
    simp only [instruct, hanswer]
    exact hgo hafter (by rw [complete_eq]) (.level _) (hr _)
  | readCache key k =>
    exact hgo (h.change h.agree h.calls h.state rfl rfl rfl) rfl
      (hr.1 _ ((hm x hx).1 key k hst)) hr.2
  | writeCache key value lifetime k =>
    exact hgo (h.change h.agree h.calls h.state rfl rfl rfl) rfl
      (hr.1 _ ((hm x hx).2 key value lifetime k hst)) hr.2
  | _ => exact hr.elim

/-- What a handler of a stage of the cache reads and reports is not noticed. -/
theorem dally (h : Twins o e f) {a : Occasion} (hd : e.dallies a = true) :
    Twins o (e.act (o.environment c) a) f := by
  cases a with
  | run i =>
    obtain ⟨x, hx, hdallies⟩ := (Option.any_eq_true _ _).1 hd
    obtain ⟨y, hy, hstage, hpromises, hpace⟩ := h.other hx
    rw [Handler.dallies] at hdallies
    cases hst : x.state with
    | ended ending => rw [hst] at hdallies; exact Bool.noConfusion hdallies
    | running r =>
      rw [hst] at hdallies hpace
      obtain ⟨hcache, haside⟩ := Bool.and_eq_true_iff.1 hdallies
      simp only [Engine.act, hx, Option.map_some, hst]
      generalize hst' : y.state = st at hpace
      cases hpace with
      | level hother hr => rw [hother] at hcache; exact Bool.noConfusion hcache
      | @behind _ r' _ hlags hforgiving =>
        -- the other handler stays where it is
        have hself : f.resume i r' = f := resume_self hy hst'
        have hgo : ∀ {e₁ : Engine (Surroundings τ κ)} {k : Routine}, Twins o e₁ f →
            e₁.handlers = e.handlers → k.Lags o r' → Twins o (e₁.resume i k) f := by
          intro e₁ k h₁ he₁ hk
          rw [← hself]
          refine h₁.resume fun x' hx' => ?_
          rw [he₁, hx] at hx'
          cases hx'
          exact .behind hcache hk hforgiving
        cases hlags with
        | level => cases r <;> first | exact hforgiving.elim | exact Bool.noConfusion haside
        | report hk => exact hgo (h.quiet h.agree rfl rfl rfl rfl rfl) rfl hk
        | decode hfail hk =>
          simp only [instruct, Outside.environment, hfail]
          exact hgo h rfl hk
  | _ => exact Bool.noConfusion hd

/-- A handler takes its turn. -/
theorem run {f : Engine (Surroundings τ Unit)} (h : Twins o e f) {i : Nat}
    (hm : Mishap o c e (.run i)) (hd : e.dallies (.run i) = false) :
    Twins o (e.act (o.environment c) (.run i)) (f.act (o.environment .missing) (.run i)) := by
  cases hx : e.handlers[i]? with
  | none =>
    simp only [Engine.act, hx, h.other_none hx, Option.map_none]
    exact h
  | some x =>
    obtain ⟨y, hy, hstage, hpromises, hpace⟩ := h.other hx
    simp only [Engine.act, hx, hy, Option.map_some]
    generalize hst : x.state = st, hst' : y.state = st' at hpace
    cases hpace with
    | ended ending => exact h
    | level hother hr => exact h.instruct_uncached hx hother hr
    | @behind r r' hcache hlags hforgiving =>
      have haside : r.isAside = false := by
        rw [dallies, hx, Option.any_some, Handler.dallies, hst] at hd
        simpa only [hcache, Bool.true_and] using hd
      cases hlags with
      | level => exact h.instruct_forgiving hx hst hm hcache hforgiving
      | report hk => exact Bool.noConfusion haside
      | decode hfail hk => exact Bool.noConfusion haside

theorem handOne (h : Twins o e f) (stage : Stage) (i : Nat) :
    Twins o (e.handOne stage i) (f.handOne stage i) := by
  have htask : f.tasks[i]? = e.tasks[i]? := by rw [h.agree.tasks]
  have hagree := h.agree.handOne stage i
  have hblocks : f.blocks = e.blocks := (congrArg Engine.blocks h.agree).symm
  have hused : f.used = e.used := (congrArg Engine.used h.agree).symm
  cases ht : e.tasks[i]? with
  | none =>
    rw [handOne_of_none stage ht, handOne_of_none stage (htask.trans ht)]
    exact h
  | some t =>
    obtain ⟨window, retries, hb⟩ := h.blocks
    obtain ⟨hps, he⟩ := handOne_eq stage ht
    obtain ⟨hps', hf⟩ := handOne_eq stage (htask.trans ht)
    refine h.push stage [⟨e.used.size, i, t.id, stage, t.descriptor⟩]
      ((e.blocks stage).onTask ⟨e.used.size, i, t.id, stage, t.descriptor⟩) hagree ?_ ?_ ?_ ?_ ?_ ?_
    · rw [he]; rfl
    · rw [hf]; rfl
    · rw [he]; rfl
    · rw [he, hps]; rfl
    · rw [hf, hps', hused, hblocks]; rfl
    · rw [hb]
      cases hs : stage.asksCache with
      | true => exact .behind hs (.level _) (Stages.forgiving_onTask o window retries hs _)
      | false => exact .level hs (Stages.uncached_onTask window retries hs _)

theorem handWindow (h : Twins o e f) {stage : Stage} (hw : (e.blocks stage).window ≠ none)
    (members : List Nat) : Twins o (e.handWindow stage members) (f.handWindow stage members) := by
  have hagree := h.agree.handWindow stage members
  have hblocks : f.blocks = e.blocks := (congrArg Engine.blocks h.agree).symm
  have hps := (h.agree.promises stage members).1
  obtain ⟨window, retries, hb⟩ := h.blocks
  refine h.push stage (e.promises stage members).1
    ((e.blocks stage).onWindow (e.promises stage members).1) hagree ?_ ?_ ?_ ?_ ?_ ?_
  · rw [handWindow_eq]; rfl
  · rw [handWindow_eq]; rfl
  · rw [handWindow_eq]; rfl
  · rw [handWindow_eq]; rfl
  · rw [handWindow_eq, ← hps, hblocks]; rfl
  · rw [hb] at hw ⊢
    cases stage with
    | getFromNet => exact .level rfl (Stages.uncached_sendWindow _)
    | _ => exact absurd rfl hw

/-- **The two engines stay side by side** on every occasion that is not dallied away. -/
theorem act {f : Engine (Surroundings τ Unit)} (h : Twins o e f) {a : Occasion}
    (hm : Mishap o c e a) (hd : e.dallies a = false) :
    Twins o (e.act (o.environment c) a) (f.act (o.environment .missing) a) := by
  have hcancelled : f.cancelled = e.cancelled := (congrArg Engine.cancelled h.agree).symm
  have hstopped : f.stopped = e.stopped := (congrArg Engine.stopped h.agree).symm
  have hblocks : f.blocks = e.blocks := (congrArg Engine.blocks h.agree).symm
  have hloop : ∀ stage, f.loop stage = e.loop stage := fun stage =>
    (congrArg (fun b => b.loop stage) h.agree).symm
  cases a with
  | run i => exact h.run hm hd
  | schedule woken alarms => exact h.quiet h.agree rfl rfl rfl rfl rfl
  | report m => exact h.quiet h.agree rfl rfl rfl rfl rfl
  | watch i =>
    exact h.modify i (fun x => { x with watched := true }) (fun y => { y with watched := true })
      h.agree rfl rfl rfl rfl rfl fun _ _ _ hxy => hxy
  | pass now nextTask =>
    have hnext : f.nextTask = e.nextTask := (congrArg Engine.nextTask h.agree).symm
    simp only [Engine.act, h.now, hnext]
    split
    · exact h.quiet (.lift (F := fun e => { e with now, nextTask }) (fun _ => rfl) h.agree)
        rfl rfl rfl rfl rfl
    · exact h
  | submit d =>
    refine h.quiet (h.agree.submit d) ?_ ?_ ?_ ?_ ?_
    all_goals rw [Engine.act, submit_eq]
  | subscribe method once =>
    exact h.quiet (.lift (F := fun e => (e.subscribe method once).2) (fun _ => rfl) h.agree)
      rfl rfl rfl rfl rfl
  | unsubscribe i =>
    exact h.quiet (.lift (F := fun e => e.unsubscribe i) (fun _ => rfl) h.agree) rfl rfl rfl rfl rfl
  | shutdown =>
    refine h.quiet h.agree.shutdown ?_ ?_ ?_ ?_ ?_
    all_goals rw [Engine.act, shutdown_eq]
  | setFlag s key value =>
    exact h.quiet (.lift (F := fun e => e.setFlag s key value) (fun _ => rfl) h.agree)
      rfl rfl rfl rfl rfl
  | listen board heard =>
    exact h.quiet (.lift (F := fun e => { e with board, heard }) (fun _ => rfl) h.agree)
      rfl rfl rfl rfl rfl
  | work =>
    have hframe : ∀ {ρ : Type} (e : Engine ρ), e.serve.world = e.world ∧ e.serve.blocks = e.blocks ∧
        e.serve.handlers = e.handlers := by
      intro ρ e
      unfold Engine.serve
      split
      · rw [handle_eq]; exact ⟨rfl, rfl, rfl⟩
      · exact ⟨rfl, rfl, rfl⟩
    exact h.quiet h.agree.serve (hframe e).1 (hframe f).1 (hframe e).2.1 (hframe e).2.2 (hframe f).2.2
  | stop =>
    simp only [Engine.act, hcancelled, hstopped]
    split
    · refine h.quiet h.agree.stopWorker ?_ ?_ ?_ ?_ ?_
      all_goals rw [stopWorker_eq]
    · exact h
  | take stage =>
    simp only [Engine.act, hcancelled, hblocks, hloop]
    split
    · exact (h.quiet (h.agree.setLoop stage _) rfl rfl rfl rfl rfl).handOne stage _
    · exact h
  | openWindow stage =>
    simp only [Engine.act, hcancelled, hblocks, hloop, h.now]
    split
    · exact h.quiet (h.agree.setLoop stage _) rfl rfl rfl rfl rfl
    · exact h
  | gather stage =>
    simp only [Engine.act, hcancelled, hblocks, hloop, h.now]
    split
    · split
      · exact h.quiet (h.agree.setLoop stage _) rfl rfl rfl rfl rfl
      · exact h
    · exact h
  | closeWindow stage =>
    simp only [Engine.act, hcancelled, hblocks, hloop, h.now]
    split
    · rename_i window w _ hwindow _
      split
      · exact (h.quiet (h.agree.setLoop stage _) rfl rfl rfl rfl rfl).handWindow
          (show (e.blocks stage).window ≠ none by rw [hwindow]; simp) w.members
      · exact h
    · exact h
  | forget stage =>
    simp only [Engine.act, hcancelled]
    split
    · exact h.quiet (h.agree.setLoop stage _) rfl rfl rfl rfl rfl
    · exact h
  | rescue i place =>
    have hleaves : (f.handlers[i]?.bind fun y => y.leaves? place) =
        e.handlers[i]?.bind fun x => x.leaves? place := by
      cases hx : e.handlers[i]? with
      | none => rw [h.other_none hx]
      | some x =>
        obtain ⟨y, hy, hstage, hpromises, hpace⟩ := h.other hx
        rw [hy, Option.bind_some, Option.bind_some, Handler.leaves?, Handler.leaves?, hpromises]
        generalize x.state = st, y.state = st' at hpace
        cases hpace <;> rfl
    simp only [Engine.act, hleaves]
    split
    · exact (h.complete _ _).2
    · exact h
  | read i =>
    refine h.quiet (h.agree.readBus i) ?_ ?_ ?_ ?_ ?_
    all_goals rw [Engine.act, readBus_eq]

/-- **The two engines come out side by side** at the end of a schedule. -/
theorem play {f : Engine (Surroundings τ Unit)} (h : Twins o e f) {schedule : List Occasion}
    (hl : Luckless o c e schedule) :
    Twins o (e.play (o.environment c) schedule)
      (f.play (o.environment .missing) (straightened (o.environment c) e schedule)) := by
  induction schedule generalizing e f with
  | nil => exact h
  | cons a schedule ih =>
    obtain ⟨hm, hrest⟩ := hl
    rw [straightened]
    split
    · rename_i hd
      exact ih (h.dally hd) hrest
    · rename_i hd
      exact ih (h.act hm (by simpa using hd)) hrest

end Twins

/-- Two runs that nobody can tell apart: transports have received the same calls, and tasks, replies,
events and what subscribers have heard are the same. -/
structure Indistinguishable (e : Engine (Surroundings τ κ)) (f : Engine (Surroundings τ κ')) : Prop where
  calls : f.world.calls = e.world.calls
  /-- All verdicts are the same, those recorded and those delivered. -/
  tasks : f.tasks = e.tasks
  replies : f.replies = e.replies
  answers : ∀ r, f.answer r = e.answer r
  events : f.events = e.events
  subscribers : f.subscribers = e.subscribers

theorem Twins.indistinguishable {e : Engine (Surroundings τ κ)} {f : Engine (Surroundings τ κ')}
    (h : Twins o e f) : Indistinguishable e f where
  calls := h.calls
  tasks := h.agree.tasks.symm
  replies := (congrArg Engine.replies h.agree).symm
  answers r := (congrArg (fun b => b.answer r) h.agree).symm
  events := (congrArg Engine.events h.agree).symm
  subscribers := (congrArg Engine.subscribers h.agree).symm

theorem Twins.start (window : Duration) (retries : Nat) (state : τ) (cache : κ) (cache' : κ') :
    Twins o (Engine.start (Stages.block window retries) (⟨[], state, cache⟩ : Surroundings τ κ))
      (Engine.start (Stages.block window retries) (⟨[], state, cache'⟩ : Surroundings τ κ')) where
  agree := rfl
  blocks := ⟨window, retries, rfl⟩
  calls := rfl
  state := rfl
  size := rfl
  handlers i x y hx := by simp [Engine.start] at hx

end Engine
end RpcFlow
