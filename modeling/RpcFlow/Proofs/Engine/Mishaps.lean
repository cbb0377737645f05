import RpcFlow.Proofs.Engine.Caching
import RpcFlow.Proofs.Engine.Twins

/-!
# Mishaps of the cache go unnoticed

Lookups that fail, texts that cannot be read or are of another type than was asked for, writes that fail:
whatever goes wrong with a cache, short of a crash, a run goes on as it does with a cache that never has
anything.  No caller, no subscriber and no server can tell the difference, and no task is told of a
failure by the stages of the cache.

* `Engine.Indistinguishable` — runs that nobody can tell apart.
* `Environment.Calm` — a world in which neither the cache nor the reader of results crashes;
  `Engine.Annals.calm` — the stages of the cache then record no failure.
* `Engine.mishaps_go_unnoticed` — both together.
-/

set_option autoImplicit false

namespace RpcFlow

/-- Neither the cache nor the reader of results crashes. -/
structure Environment.Calm {σ : Type} (env : Environment σ) : Prop where
  reads : ∀ now key w message, (env.readCache now key w).1 ≠ .crashed message
  writes : ∀ now key value lifetime w message,
    (env.writeCache now key value lifetime w).1 ≠ .crashed message
  decodes : ∀ body type w message, (env.decode body type w).1 ≠ .crashed message

namespace Stages

/-- The contract of a built-in stage in a calm world: the stages of the cache do not end with an error. -/
def calm (s : Stage) (ps : List Promise) : Contract :=
  { contract s ps with
    ends := fun _ => s.asksCache = false
    reads := fun _ x => ∀ message, x ≠ .crashed message
    stores := fun x => ∀ message, x ≠ .crashed message
    decodes := fun _ _ x => ∀ message, x ≠ .crashed message }

theorem contract_le_calm {s : Stage} (hs : s.asksCache = false) (ps : List Promise) :
    (contract s ps).Le (calm s ps) where
  promises := List.Subset.refl ps
  uses _ _ h := h
  delivers _ _ h := h
  writes _ _ _ h := h
  ends _ _ := hs
  sees _ _ h := h
  fetches _ _ _ h := h
  reads _ _ _ := trivial
  stores _ _ := trivial
  decodes _ _ _ _ := trivial
  validates _ _ h := h

theorem calm_onTask (window : Duration) (retries : Nat) (s : Stage) (p : Promise) :
    ((block window retries s).onTask p).Obeys (calm s [p]) := by
  have hp : p ∈ [p] := List.mem_cons_self
  have hend : ∀ s, (Routine.finish .ok).Obeys (calm s [p]) := fun _ => .inl rfl
  cases hs : s.asksCache with
  | false => exact (obeys_onTask window retries s p).mono (contract_le_calm hs [p])
  | true =>
    cases s with
    | getFromCache =>
      intro x hx
      cases x with
      | crashed message => exact absurd rfl (hx message)
      | failed error => exact obeys_settle hp (.inr rfl) (hend _)
      | done found =>
        cases found with
        | none => exact obeys_settle hp (.inr rfl) (hend _)
        | some text =>
          intro y hy
          cases y with
          | crashed message => exact absurd rfl (hy message)
          | failed error => exact obeys_settle hp (.inr rfl) (hend _)
          | done payload => exact obeys_settle hp (.inl ⟨_, _, rfl⟩) (hend _)
    | saveToCache =>
      refine ⟨hp, fun view _ => ?_⟩
      simp only
      split
      · exact obeys_settle hp rfl (hend _)
      · refine ⟨trivial, fun x hx => ?_⟩
        cases x with
        | crashed message => exact absurd rfl (hx message)
        | failed error => exact obeys_settle hp rfl (hend _)
        | done u => exact obeys_settle hp rfl (hend _)
    | _ => exact Bool.noConfusion hs

theorem calm_onWindow {window : Duration} {retries : Nat} {s : Stage}
    (hw : (block window retries s).window ≠ none) (ps : List Promise) :
    ((block window retries s).onWindow ps).Obeys (calm s ps) := by
  cases s with
  | getFromNet => exact (obeys_onWindow window ps).mono (contract_le_calm rfl ps)
  | _ => exact absurd rfl hw

/-- The moves of the stages of the cache are no failures. -/
theorem not_fail_of_moves {s : Stage} {m : Move} (hs : s.asksCache = true) (h : Moves s m)
    (error : CallError) : m ≠ .fail error := by
  rintro rfl
  cases s with
  | getFromCache =>
    rcases h with ⟨_, _, h⟩ | h
    · cases h
    · cases h
  | saveToCache => cases h
  | _ => exact Bool.noConfusion hs

end Stages

namespace Engine

/-! ## No failures -/

section

variable {σ : Type} {env : Environment σ} {drift : σ → σ → Prop} {window : Duration} {retries : Nat}
  {e : Engine σ}

theorem Reachable.calm (he : Reachable env drift (Stages.block window retries) e)
    (hc : env.Calm) : ∀ (index : Nat) (x : Handler), e.handlers[index]? = some x →
      x.Keeps (Stages.calm x.stage x.promises) := by
  induction he with
  | start world => exact fun index x hx => by simp [Engine.start] at hx
  | @step e e' he hs ih =>
    intro index x hx
    refine hs.keeps (C := Stages.calm) ?_ ?_ ?_ ih hx
    · exact fun s p _ => he.blocks_eq ▸ Stages.calm_onTask window retries s p
    · intro s ps hw
      rw [he.blocks_eq] at hw ⊢
      exact Stages.calm_onWindow hw ps
    · exact fun index x _ => ⟨fun _ _ _ => trivial, fun _ _ => trivial, fun key => hc.reads _ key _,
        fun key value lifetime => hc.writes _ key value lifetime _, fun body type => hc.decodes body type _,
        fun _ => trivial⟩

/-- **The stages of the cache record no failure** in a calm world. -/
theorem Annals.calm {world : σ} {history : List Entry}
    (h : Annals env drift (Engine.start (Stages.block window retries) world) history e)
    (hc : env.Calm) : ∀ x ∈ history, x.promise.stage.asksCache = true →
      ∀ error next, x.verdict ≠ .failure error next := by
  induction h with
  | start => exact fun x hx => absurd hx List.not_mem_nil
  | @step history e e' h hs ih =>
    have hproper := Stages.proper_block window retries
    have he : Reachable env drift (Stages.block window retries) e := (Reachable.start world).steps h.steps
    intro x hx hcache error next hv
    rcases List.mem_append.1 hx with hx | hx
    · exact ih x hx hcache error next hv
    cases hs.recording he hproper with
    | none hspent => rw [hspent] at hx; exact absurd hx List.not_mem_nil
    | use index y p m hy hp ha ho hspent htasks =>
      rw [hspent, List.mem_singleton] at hx
      subst hx
      have hstage := he.stages hproper index y hy p hp
      obtain ⟨error', rfl⟩ : ∃ error', m = .fail error' := by
        cases m with
        | fail error' => exact ⟨error', rfl⟩
        | succeed payload raw => cases hv
        | follow success => cases hv
        | goTo next => cases hv
      rw [hstage] at hcache
      rcases (he.calm hc index y hy).allows ha with hmoves | ⟨ending, _, hends, -⟩
      · exact Stages.not_fail_of_moves hcache hmoves error' rfl
      · rw [show y.stage.asksCache = false from hends] at hcache
        exact Bool.noConfusion hcache

end

/-! ## Runs that nobody can tell apart -/

section

variable {τ κ : Type} {o : Outside τ} {c : Store κ}

/-- **Mishaps of the cache go unnoticed.**  If every lookup in the run of a schedule fails, finds nothing,
or finds a text that cannot be read as a value of the declared type, and no write crashes, though all may
fail, then the run cannot be told from the run of the same schedule, less what the stages of the cache
read and report, with a cache that never has anything and takes everything.  And in no run of a calm
world does a stage of the cache record a failure. -/
theorem mishaps_go_unnoticed {window : Duration} {retries : Nat} {state : τ} {cache : κ}
    {schedule : List Occasion}
    (h : Luckless o c (Engine.start (Stages.block window retries) ⟨[], state, cache⟩) schedule) :
    Indistinguishable
        ((Engine.start (Stages.block window retries) ⟨[], state, cache⟩).play (o.environment c) schedule)
        ((Engine.start (Stages.block window retries) ⟨[], state, ()⟩).play (o.environment .missing)
          (straightened (o.environment c)
            (Engine.start (Stages.block window retries) ⟨[], state, cache⟩) schedule)) ∧
      ∀ {σ : Type} {env : Environment σ} {drift : σ → σ → Prop} {world : σ} {history : List Entry}
        {e : Engine σ}, env.Calm →
        Annals env drift (Engine.start (Stages.block window retries) world) history e →
        ∀ x ∈ history, x.promise.stage.asksCache = true →
          ∀ error next, x.verdict ≠ .failure error next :=
  ⟨((Twins.start window retries state cache ()).play h).indistinguishable, fun hc ha => ha.calm hc⟩

/-- A cache whose answers are never of use is of no use in any run. -/
theorem luckless_of_useless (hread : ∀ now key k d, o.Useless d (c.read now key k).1)
    (hwrite : ∀ now key value lifetime k message,
      (c.write now key value lifetime k).1 ≠ .crashed message)
    (e : Engine (Surroundings τ κ)) (schedule : List Occasion) : Luckless o c e schedule := by
  induction schedule generalizing e with
  | nil => exact trivial
  | cons a schedule ih =>
    refine ⟨?_, ih _⟩
    cases a with
    | run i => exact fun x _ => ⟨fun key k _ p _ => hread _ key _ _, fun _ _ _ _ _ => hwrite _ _ _ _ _⟩
    | _ => exact trivial

end

/-! ## A broken cache -/

/-- A cache that fails every second time it is looked into, and has garbage the other times; nothing can
be written to it. -/
def brokenStore : Store Nat where
  read _ _ n := (if n % 2 = 0 then .failed (.conversion "unreachable") else .done (some "\x7d\x7b"), n + 1)
  write _ _ _ _ n := (.failed (.conversion "full"), n)

/-- The world of the server that knows one method. -/
def pongOutside : Outside Unit where
  fetch := Client.pong.fetch
  decode := fun body type => .ofExcept (Client.pong.decode body type)
  validate := fun value w => (.ofExcept (Client.pong.validate value), w)

/-- Two calls of `ping`, one after the other; the second finds garbage in the cache. -/
def pingTwice : List Occasion :=
  [.submit (storedPing 1), .work, .take .initial, .run 0, .run 0, .work, .take .getFromCache, .run 1,
    .run 1, .run 1, .run 1, .work, .openWindow .getFromNet, .closeWindow .getFromNet, .run 2, .run 2,
    .run 2, .run 2, .run 2, .run 2, .run 2, .run 2, .work, .take .deliverResult, .run 3, .run 3, .run 3,
    .run 3, .take .saveToCache, .run 4, .run 4, .run 4, .run 4, .run 4, .work, .work,
    .submit (storedPing 2), .work, .take .initial, .run 5, .run 5, .work, .take .getFromCache, .run 6,
    .run 6, .run 6, .run 6, .run 6]

theorem useless_brokenStore (now : Moment) (key : String) (n : Nat) (d : Descriptor) :
    pongOutside.Useless d (brokenStore.read now key n).1 := by
  simp only [brokenStore]
  split
  · exact trivial
  · have hgarbage : (Codec.parse "\x7d\x7b").toOption = none := by decide +kernel
    cases hparse : Codec.parse "\x7d\x7b" with
    | ok value => rw [hparse] at hgarbage; cases hgarbage
    | error error =>
      refine ⟨error, ?_⟩
      simp only [pongOutside, Client.pong, Codec.decode, Codec.parseBody, hparse, bind, Except.bind]
      rfl

theorem calm_pongOutside : (pongOutside.environment brokenStore).Calm where
  reads now key w message h := by
    have huseless := useless_brokenStore now key w.cache ping
    rw [show (brokenStore.read now key w.cache).1 = .crashed message from h] at huseless
    exact huseless
  writes _ _ _ _ _ _ h := by cases h
  decodes _ _ _ _ h := Backend.ofExcept_ne_crashed h.symm

theorem mishaps_go_unnoticed_twice :
    let e₀ := Engine.start (Stages.block (.ofMillis 0) 1) (⟨[], (), 0⟩ : Surroundings Unit Nat)
    let e := e₀.play (pongOutside.environment brokenStore) pingTwice
    Luckless pongOutside brokenStore e₀ pingTwice ∧
      Indistinguishable e ((Engine.start (Stages.block (.ofMillis 0) 1) ⟨[], (), ()⟩).play
        (pongOutside.environment .missing)
        (straightened (pongOutside.environment brokenStore) e₀ pingTwice)) ∧
      e.world.cache = 2 ∧ e.answer 0 = .item (.ok (.str "pong")) ∧
      (pongOutside.environment brokenStore).Calm ∧
      ∃ history, Annals (pongOutside.environment brokenStore) Eq e₀ history e ∧
        ∀ x ∈ history, x.promise.stage.asksCache = true → ∀ error next,
          x.verdict ≠ .failure error next := by
  intro e₀ e
  have hluckless : Luckless pongOutside brokenStore e₀ pingTwice :=
    luckless_of_useless useless_brokenStore (fun _ _ _ _ _ _ h => by cases h) e₀ pingTwice
  obtain ⟨hsame, hcalm⟩ := mishaps_go_unnoticed hluckless
  obtain ⟨history, hannals⟩ : ∃ history,
      Annals (pongOutside.environment brokenStore) Eq e₀ history e :=
    Annals.exists_of_steps (steps_iff_play.2 ⟨pingTwice, rfl⟩)
  exact ⟨hluckless, hsame, by decide +kernel, by decide +kernel, calm_pongOutside, history, hannals,
    hcalm calm_pongOutside hannals⟩

end Engine
end RpcFlow
