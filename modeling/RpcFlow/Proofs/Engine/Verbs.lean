import RpcFlow.Proofs.Engine.Windows

/-!
# Calls that only ask

A task that only asks is sent without a body when it travels alone.  A combined call is posted
whatever its members, so the verb is kept only if no task that asks shares its call, which the limit
of its batch size has to see to.

* `Stages.KeepsVerbs` — tasks that only ask are sent alone and without a body.
* `Stages.keeps_verbs` — **so it is with every window in which no task that only asks may share a
  call.**
* `Stages.not_keeps_verbs_asking` — it is not so with every window.
-/

set_option autoImplicit false

namespace RpcFlow

theorem Batch.Carries.ne_nil {headers : Dict String} {members : List Promise} {transport : String}
    {call : WireCall} (h : Carries headers members transport call) : members ≠ [] := by
  cases h with
  | alone p => exact List.cons_ne_nil _ _
  | together _ _ _ htwo => exact List.ne_nil_of_length_pos (by omega)

namespace Stages

variable {C : Contract} {isOpen : Promise → Bool} {ps : List Promise} {window : Duration}

/-- Every call carries tasks of the window, and a task that only asks travels alone and without its
body. -/
def KeepsVerbs (window : List Promise) (deeds : List Deed) : Prop :=
  ∀ transport call, .called transport call ∈ deeds → ∃ headers members,
    Batch.Carries headers members transport call ∧ members.Sublist window ∧
      ∀ p ∈ members, p.descriptor.http = .get → members = [p] ∧ call.body = none

/-- **A task that only asks is sent without its body**, if it may not share a call. -/
theorem keeps_verbs
    (h : ∀ p ∈ ps, p.descriptor.http = .get → p.descriptor.maxBatchSize ≤ 1) :
    ((network window).onWindow ps).Ensures C isOpen fun deeds _ => KeepsVerbs ps deeds := by
  refine ensures_sendWindow fun s deeds ending hd transport call hmem => ?_
  have hcalls : (transport, call) ∈ deeds.filterMap Deed.call? :=
    List.mem_filterMap.2 ⟨_, hmem, rfl⟩
  rcases hd.calls with ⟨transport', call', hone, hcarries⟩ | ⟨hnone, -⟩
  swap
  · rw [hnone] at hcalls
    exact absurd hcalls List.not_mem_nil
  rw [hone, List.mem_singleton] at hcalls
  cases hcalls
  refine ⟨s.merged, s.sent, hcarries, s.sent_sublist, fun p hp hget => ?_⟩
  have hsize : s.sent.length ≤ max p.descriptor.maxBatchSize 1 := s.size p hp
  have hlimit := h p (s.sent_sublist.subset hp) hget
  have hlength : s.sent.length = 1 := by
    have := List.length_pos_of_mem hp
    omega
  obtain ⟨q, hq⟩ := List.length_eq_one_iff.1 hlength
  rw [hq] at hp hcarries ⊢
  cases List.mem_singleton.1 hp
  refine ⟨rfl, ?_⟩
  cases hcarries with
  | alone _ _ halone => exact halone.asks hget
  | together _ _ _ htwo => simp at htwo

/-- A call of `ping` that only asks. -/
def asking (number size : Nat) : Promise :=
  { pinging number "wire" [] size with
    descriptor := { ping with http := .get, maxBatchSize := size } }

theorem keeps_verbs_mixed :
    (∀ p ∈ asking 3 1 :: mixed, p.descriptor.http = .get → p.descriptor.maxBatchSize ≤ 1) ∧
    ((network (.ofMillis 100)).onWindow (asking 3 1 :: mixed)).Ensures (.own []) (fun _ => true)
      fun deeds _ => KeepsVerbs (asking 3 1 :: mixed) deeds :=
  ⟨by decide, keeps_verbs (by decide)⟩

/-- Two tasks that only ask, and may share a call, are posted. -/
theorem not_keeps_verbs_asking :
    ¬ ((network (.ofMillis 100)).onWindow [asking 1 2, asking 2 2]).Ensures (.own []) (fun _ => true)
      fun deeds _ => KeepsVerbs [asking 1 2, asking 2 2] deeds := by
  have hsend : (network (.ofMillis 100)).onWindow [asking 1 2, asking 2 2] =
      sendTogether [asking 1 2, asking 2 2] [] := rfl
  rw [hsend]
  intro h
  obtain ⟨headers, members, hcarries, hsub, hkept⟩ :=
    h (.failed (.io "reset")) trivial _ _ List.mem_cons_self
  obtain ⟨p, hp⟩ := List.exists_mem_of_ne_nil members hcarries.ne_nil
  have hget : p.descriptor.http = .get := by
    have hp' := hsub.subset hp
    simp only [List.mem_cons, List.not_mem_nil, or_false] at hp'
    rcases hp' with rfl | rfl <;> rfl
  cases (hkept p hp hget).2

end Stages
end RpcFlow
