import RpcFlow.Proofs.Headers.Propagation

/-!
# Who falls silent

A response is propagated from a list of calls that is made when it comes in, and the list is not looked
at again.  So a registration that is cancelled is passed over by every later response, but not by the
one in progress: a listener that cancels itself at its first header still hears of the others.

* `Forum.Silent` — from one state of a board to a later one, nobody is called who was cancelled in the
  first.
* `Forum.silent_after` — between responses, whoever is cancelled falls silent.
* `Forum.falls_silent` — while a response is handed to the listeners, **whoever is cancelled falls silent
  unless a call of that response is left for it**; `Forum.not_falls_silent_stopping` — such calls are
  made.
-/

set_option autoImplicit false

namespace RpcFlow
namespace Forum

variable {f g k : Forum}

/-! ## Cancellations last -/

theorem gone_carryOut (f : Forum) (d : Change) : f.gone ⊆ (f.carryOut d).gone := by
  cases d with
  | register method listener names => exact List.Subset.refl _
  | cancel token =>
    simp only [carryOut]
    split
    · exact List.subset_cons_self token f.gone
    · exact List.Subset.refl _

theorem gone_hear (react : Conduct) (f : Forum) (c : HeaderCall) : f.gone ⊆ (f.hear react c).gone := by
  have hcall : f.gone ⊆ { f with heard := f.heard ++ [c] }.gone := List.Subset.refl _
  exact List.foldlRecOn (motive := fun g => f.gone ⊆ g.gone) (react c f) carryOut hcall
    fun g hg d _ => List.Subset.trans hg (gone_carryOut g d)

theorem gone_foldl_hear (react : Conduct) (calls : List HeaderCall) (f : Forum) :
    f.gone ⊆ (calls.foldl (hear react) f).gone :=
  List.foldlRecOn (motive := fun g => f.gone ⊆ g.gone) calls (hear react) (List.Subset.refl _)
    fun g hg c _ => List.Subset.trans hg (gone_hear react g c)

/-! ## Silence -/

/-- The calls that are made from one state of a board to another are for none of these registrations. -/
def Spared (tokens : List Nat) (f f' : Forum) : Prop :=
  ∃ calls, f'.heard = f.heard ++ calls ∧ ∀ c ∈ calls, c.token ∉ tokens

/-- From one state of a board to another, nobody is called who was cancelled in the first. -/
def Silent (f f' : Forum) : Prop := Spared f.gone f f'

theorem Spared.trans {tokens : List Nat} (h : Spared tokens f g) (h' : Spared tokens g k) :
    Spared tokens f k := by
  obtain ⟨calls, hcalls, hnone⟩ := h
  obtain ⟨more, hmore, hnone'⟩ := h'
  refine ⟨calls ++ more, by rw [hmore, hcalls, List.append_assoc], fun c hc => ?_⟩
  exact (List.mem_append.1 hc).elim (hnone c) (hnone' c)

theorem Spared.mono {tokens tokens' : List Nat} (hsub : tokens ⊆ tokens') (h : Spared tokens' f g) :
    Spared tokens f g := by
  obtain ⟨calls, hcalls, hnone⟩ := h
  exact ⟨calls, hcalls, fun c hc hmem => hnone c hc (hsub hmem)⟩

/-- A response does not reach a registration that was cancelled before it came in. -/
theorem silent_propagate (h : Orderly f) (react : Conduct) (method : String) (headers : Dict String) :
    Silent f (f.propagate react method headers) := by
  refine ⟨_, (grows_propagate react f method headers).heard, fun c hc => ?_⟩
  obtain ⟨-, -, r, hr, htoken, -⟩ := (mem_deliveries h).1 hc
  have hlive := (List.mem_filter.1 hr).2
  rw [htoken]
  simpa using hlive

/-- **Whatever happens next, nobody is called who is cancelled already.** -/
theorem silent_happen (h : Orderly f) (react : Conduct) (x : Happening) :
    Silent f (f.happen react x) ∧ f.gone ⊆ (f.happen react x).gone ∧ Orderly (f.happen react x) := by
  cases x with
  | change d =>
    exact ⟨⟨[], (grows_carryOut f d).heard, fun _ hc => absurd hc List.not_mem_nil⟩,
      gone_carryOut f d, h.carryOut d⟩
  | response method headers =>
    refine ⟨silent_propagate h react method headers, ?_, h.propagate react method headers⟩
    rw [happen, propagate_eq, during]
    exact gone_foldl_hear react _ { f with board := f.board.prune }

theorem silent_foldl_happen (h : Orderly f) (react : Conduct) (later : List Happening) :
    Silent f (later.foldl (happen react) f) := by
  induction later generalizing f with
  | nil => exact ⟨[], (List.append_nil _).symm, fun _ hc => absurd hc List.not_mem_nil⟩
  | cons x later ih =>
    obtain ⟨hfirst, hgone, hnext⟩ := silent_happen h react x
    exact hfirst.trans (Spared.mono hgone (ih hnext))

theorem after_append_list (react : Conduct) (happenings later : List Happening) :
    after react (happenings ++ later) = later.foldl (happen react) (after react happenings) :=
  List.foldl_append

/-- **Between responses, whoever is cancelled falls silent.** -/
theorem silent_after (react : Conduct) (happenings later : List Happening) :
    Silent (after react happenings) (after react (happenings ++ later)) := by
  rw [after_append_list]
  exact silent_foldl_happen (orderly_after react happenings) react later

/-! ## In the middle of a response -/

/-- The calls of a response that are still to be made after the first ones. -/
def callsLeft (f : Forum) (method : String) (headers : Dict String) (calls : Nat) : List HeaderCall :=
  (f.board.deliveries method headers).drop calls

/-- A response is handed on to the end, whatever becomes of the listeners on the way. -/
theorem propagate_eq_callsLeft (react : Conduct) (f : Forum) (method : String)
    (headers : Dict String) (calls : Nat) :
    f.propagate react method headers =
      (f.callsLeft method headers calls).foldl (hear react) (f.during react method headers calls) := by
  rw [propagate_eq, during, during, List.take_length, callsLeft, ← List.foldl_append,
    List.take_append_drop]

/-- From the middle of a response on, the calls that are left of it are made, and after these none for
a registration that is cancelled by now. -/
theorem exists_heard_during (react : Conduct) (happenings later : List Happening) (method : String)
    (headers : Dict String) (calls : Nat) :
    let f := after react happenings
    let now := f.during react method headers calls
    ∃ more, (after react (happenings ++ .response method headers :: later)).heard =
        now.heard ++ (f.callsLeft method headers calls ++ more) ∧
      ∀ c ∈ more, c.token ∉ now.gone := by
  intro f now
  have hend := propagate_eq_callsLeft react f method headers calls
  have hheard := (grows_foldl_hear react (f.callsLeft method headers calls) now).heard
  have hgone := gone_foldl_hear react (f.callsLeft method headers calls) now
  rw [← hend] at hheard hgone
  obtain ⟨more, hmore, hnone⟩ :=
    silent_after react (happenings ++ [.response method headers]) later
  rw [after_append, List.append_assoc, List.singleton_append] at hmore
  rw [after_append] at hnone
  refine ⟨more, ?_, fun c hc hmem => hnone c hc (hgone hmem)⟩
  rw [hmore, happen, hheard, List.append_assoc]

/-- **Whoever is cancelled falls silent, unless a call of the response in progress is left for it.**
Between responses this is so whoever is cancelled; while a response is handed to the listeners, the calls
that are left of it are made, and only these. -/
theorem falls_silent (react : Conduct) (happenings later : List Happening) (method : String)
    (headers : Dict String) (calls : Nat) :
    let f := after react happenings
    let now := f.during react method headers calls
    let f' := after react (happenings ++ .response method headers :: later)
    Silent f (after react (happenings ++ later)) ∧
    (∃ more, f'.heard = now.heard ++ (f.callsLeft method headers calls ++ more) ∧
      ∀ c ∈ more, c.token ∉ now.gone) ∧
    (Silent now f' ↔ ∀ c ∈ f.callsLeft method headers calls, c.token ∉ now.gone) := by
  intro f now f'
  obtain ⟨more, hmore, hnone⟩ := exists_heard_during react happenings later method headers calls
  refine ⟨silent_after react happenings later, ⟨more, hmore, hnone⟩,
    fun ⟨made, hmade, hspared⟩ c hc => ?_,
    fun hleft => ⟨_, hmore, fun c hc => (List.mem_append.1 hc).elim (hleft c) (hnone c)⟩⟩
  have hall : made = f.callsLeft method headers calls ++ more :=
    List.append_cancel_left (hmade.symm.trans hmore)
  exact hspared c (hall ▸ List.mem_append_left more hc)

/-- Listeners that cancel themselves when they are called, and the second one if there is one. -/
def stop : Conduct := fun c _ => [.cancel c.token, .cancel 1]

/-- **A listener that cancels itself, or is cancelled by another one, is called for what is left of the
response.** -/
theorem not_falls_silent_stopping :
    let joined := [Happening.change (.register "login" "first" []),
      .change (.register "login" "second" [])]
    let now := (after stop joined).during stop "login" answer 1
    let f' := after stop (joined ++ [.response "login" answer])
    now.gone = [1, 0] ∧ now.heard.map (fun c => (c.token, c.name)) = [(0, "token")] ∧
      f'.heard.map (fun c => (c.token, c.name)) =
        [(0, "token"), (0, "trace"), (1, "token"), (1, "trace")] ∧
      ¬ Silent now f' := by
  intro joined now f'
  refine ⟨by decide, by decide, by decide, fun hsilent => ?_⟩
  -- the second call is for the listener that cancelled itself at the first
  have hleft : ∃ c ∈ (after stop joined).callsLeft "login" answer 1, c.token ∈ now.gone := by decide
  obtain ⟨calls, hcalls, hspared⟩ := hsilent
  obtain ⟨more, hmore, -⟩ := exists_heard_during stop joined [] "login" answer 1
  obtain ⟨c, hc, hgone⟩ := hleft
  have hall : calls = (after stop joined).callsLeft "login" answer 1 ++ more :=
    List.append_cancel_left (hcalls.symm.trans hmore)
  exact hspared c (hall ▸ List.mem_append_left more hc) hgone

end Forum
end RpcFlow
