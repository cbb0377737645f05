import RpcFlow.Proofs.Engine.Records

/-!
# What a task comes to

In the end a task has been delivered a verdict that one of its stages has recorded.  The history of the
run knows which: a result comes from the network or the cache, and a failure from a stage that does not
deliver.  The stages that deliver have errors of their own, for tasks that nothing is known of, but they
record no failure for a task whose strategy has a course, and deliver none of their own.

* `Engine.Chronicle.exists_move` — every entry of a history comes from a move that its stage may make.
* `Engine.RecordedBy` — a stage recorded a verdict for a task; `Engine.Found` — the network or the cache
  stage recorded a result.
* `Engine.delivers_once` — **a task that no stage holds has been delivered to exactly once**: a result
  if there is one, and the last failure otherwise.
-/

set_option autoImplicit false

namespace RpcFlow
namespace Engine

variable {σ : Type} {env : Environment σ} {drift : σ → σ → Prop} {window : Duration} {retries : Nat}
  {e : Engine σ} {history : List Entry} {i : Nat}

/-! ## Who recorded what -/

/-- A history is one of the runs from a start. -/
theorem Chronicle.exists_annals {blocks : Stage → Block} (h : Chronicle env drift blocks history e) :
    ∃ world, Annals env drift (Engine.start blocks world) history e := by
  induction h with
  | start world => exact ⟨world, .start⟩
  | step _ hs ih =>
    obtain ⟨world, ha⟩ := ih
    exact ⟨world, ha.step hs⟩

/-- **Every entry of a history comes from a move that its stage may make.** -/
theorem Chronicle.exists_move (h : Chronicle env drift (Stages.block window retries) history e)
    (hc : e.cancelled = false) :
    ∀ x ∈ history, ∃ m, StageMove x.promise m ∧ x.verdict = x.promise.verdict m := by
  induction h with
  | start world => exact fun x hx => absurd hx List.not_mem_nil
  | step h hs ih =>
    have hc' := hs.frame.2.1 hc
    intro x hx
    rcases List.mem_append.1 hx with hx | hx
    · exact ih hc' x hx
    · cases hs.recording h.reachable (Stages.proper_block window retries) with
      | none hspent =>
        rw [hspent] at hx
        exact absurd hx List.not_mem_nil
      | use index y p m hy hp ha ho hspent =>
        rw [hspent, List.mem_singleton] at hx
        subst hx
        exact ⟨m, h.reachable.stageMove hc' hy hp ha, rfl⟩

/-- Only the network and the cache stage have results. -/
theorem StageMove.stage_of_success {p : Promise} {m : Move} (h : StageMove p m)
    (hs : (p.verdict m).isSuccess = true) : p.stage = .getFromNet ∨ p.stage = .getFromCache := by
  cases m with
  | succeed payload raw =>
    rcases h with hm | ⟨error, heq, -⟩
    · cases hps : p.stage <;> rw [hps] at hm <;> simp [Stages.Moves] at hm ⊢
    · exact absurd heq (by simp)
  | fail error => exact Bool.noConfusion hs
  | follow success => exact Bool.noConfusion hs
  | goTo next => exact Bool.noConfusion hs

/-- Under a strategy with a course, the stages that deliver do not fail. -/
theorem StageMove.not_delivers_of_failure {p : Promise} {m : Move} (h : StageMove p m)
    (hcourse : OnCourse p.descriptor.strategy) (hf : (p.verdict m).isFailure = true) :
    ¬p.stage.Delivers := by
  obtain ⟨error, rfl⟩ : ∃ error, m = .fail error := by
    cases m with
    | fail error => exact ⟨error, rfl⟩
    | _ => exact Bool.noConfusion hf
  rcases h with hm | ⟨-, -, hbreak, hne⟩
  · rintro (hps | hps) <;> rw [hps] at hm <;> simp [Stages.Moves] at hm
  · rintro (hps | hps)
    · exact hne hcourse hps
    · rw [hps] at hbreak
      simp [Stages.MayBreak] at hbreak

/-- A stage recorded a verdict for a task: it has used a promise for the task, and this is what the task
was given then. -/
def RecordedBy (history : List Entry) (i : Nat) (s : Stage) (v : Verdict) : Prop :=
  ∃ x ∈ history, x.promise.task = i ∧ x.promise.stage = s ∧ x.verdict = v

/-- The network or the cache stage recorded a result for a task. -/
structure Found (history : List Entry) (i : Nat) (v : Verdict) : Prop where
  success : v.isSuccess = true
  stage : RecordedBy history i .getFromNet v ∨ RecordedBy history i .getFromCache v

theorem mem_recorded {v : Verdict} : v ∈ recorded history i ↔ ∃ s, RecordedBy history i s v := by
  simp only [recorded, List.mem_map, List.mem_filter, beq_iff_eq]
  constructor
  · rintro ⟨x, ⟨hx, hi⟩, rfl⟩
    exact ⟨x.promise.stage, x, hx, hi, rfl, rfl⟩
  · rintro ⟨s, x, hx, hi, -, rfl⟩
    exact ⟨x, ⟨hx, hi⟩, rfl⟩

theorem Found.mem_recorded {v : Verdict} (h : Found history i v) : v ∈ recorded history i :=
  Engine.mem_recorded.2 (h.stage.elim (fun h => ⟨_, h⟩) fun h => ⟨_, h⟩)

section

variable (h : Chronicle env drift (Stages.block window retries) history e) (hc : e.cancelled = false)
include h hc

/-- A result that was recorded was found by the network or the cache stage. -/
theorem Chronicle.found {v : Verdict} (hv : v ∈ recorded history i) (hs : v.isSuccess = true) :
    Found history i v := by
  obtain ⟨s, x, hx, hi, -, rfl⟩ := mem_recorded.1 hv
  obtain ⟨m, hm, hverdict⟩ := h.exists_move hc x hx
  rw [hverdict] at hs
  refine ⟨hverdict ▸ hs, ?_⟩
  exact (hm.stage_of_success hs).imp (fun hps => ⟨x, hx, hi, hps, rfl⟩) fun hps => ⟨x, hx, hi, hps, rfl⟩

/-- A stage that delivers records no failure for a task whose strategy has a course. -/
theorem Chronicle.not_isFailure {t : Task} (ht : e.tasks[i]? = some t)
    (hcourse : OnCourse t.descriptor.strategy) {s : Stage} {v : Verdict} (hs : s.Delivers)
    (hv : RecordedBy history i s v) : v.isFailure = false := by
  obtain ⟨x, hx, rfl, rfl, rfl⟩ := hv
  obtain ⟨m, hm, hverdict⟩ := h.exists_move hc x hx
  obtain ⟨world, hannals⟩ := h.exists_annals
  obtain ⟨t', ht', hd⟩ :=
    hannals.descriptors (.start world) (Stages.proper_block window retries) x hx
  rw [ht] at ht'
  cases ht'
  cases hf : x.verdict.isFailure with
  | false => rfl
  | true => exact absurd hs (hm.not_delivers_of_failure (hd ▸ hcourse) (hverdict ▸ hf))

end

/-! ## The result -/

/-- **A task that no stage holds any more has been delivered to exactly once**, in every run before the
engine is told to stop: a result that the network or the cache stage recorded, if there is one, and
otherwise the last recorded failure.  This was recorded by a stage that does not deliver; those that do
have recorded no failure. -/
theorem delivers_once {presets : List Preset} {cell : Nat}
    (hp : ∃ p ∈ presets, p.reachesNet = true)
    (h : Chronicle env drift (Stages.block window retries) history e) (hc : e.cancelled = false)
    {t : Task} (ht : e.tasks[i]? = some t)
    (hs : t.descriptor.strategy = Strategy.merge (presets.map Preset.table) cell)
    (hheld : t.holding = []) :
    recorded history i = t.results.items ∧ ∃ v, t.delivered.items = [v] ∧
      ((∃ w, Found history i w) → Found history i v) ∧
      ((¬∃ w, Found history i w) → t.lastFailure? = some v ∧
        ∃ s : Stage, ¬s.Delivers ∧ RecordedBy history i s v) ∧
      ∀ (s : Stage) (w : Verdict), s.Delivers → RecordedBy history i s w → w.isFailure = false := by
  obtain ⟨p, hcourse⟩ := Preset.exists_course presets cell hp
  rw [← hs] at hcourse
  have hproper := Stages.proper_block window retries
  have hresults : recorded history i = t.results.items := by rw [h.results hproper hc i, ht]; rfl
  have hphase := (h.reachable.underway hc).phases i t _ _ ht hcourse
  rw [(h.reachable.ledger hproper hc).ahead_of_held ht hheld] at hphase
  obtain ⟨v, hdel, hv, hsucc, hfail⟩ := hphase.delivered_of_nil
  rw [← hresults] at hv hsucc hfail
  have hdelivering : ∀ (s : Stage) (w : Verdict), s.Delivers → RecordedBy history i s w →
      w.isFailure = false := fun s w => h.not_isFailure hc ht ⟨_, _, hcourse⟩
  refine ⟨hresults, v, hdel, fun hfound => ?_, fun hnone => ?_, hdelivering⟩
  · obtain ⟨w, hw⟩ := hfound
    exact h.found hc hv (hsucc ⟨w, hw.mem_recorded, hw.success⟩)
  · have hlast : t.lastFailure? = some v := by
      rw [hresults] at hfail
      refine hfail fun w hw => ?_
      cases hws : w.isSuccess with
      | false => rfl
      | true => exact absurd ⟨w, h.found hc (hresults ▸ hw) hws⟩ hnone
    obtain ⟨s, hrecorded⟩ := mem_recorded.1 hv
    have hvf : v.isFailure = true := List.find?_some hlast
    refine ⟨hlast, s, fun hd => ?_, hrecorded⟩
    exact absurd (hvf.symm.trans (hdelivering s v hd hrecorded)) (by simp)

/-- An engine in a world without a wire that has carried out one call. -/
def unanswered : Engine Unit :=
  [.worker, .loop .initial, .handler 0, .worker, .loop .getFromNet, .handler 1, .supervisor 1,
    .worker, .loop .resolveError, .handler 2, .worker, .loop .deliverError, .handler 3,
    .worker].foldl (turn .crashing)
    ((Engine.start (Stages.block (.ofMillis 0) 1) ()).submit ping).2

theorem delivers_once_unanswered :
    (∃ p ∈ [Preset.noCache], p.reachesNet = true) ∧ unanswered.cancelled = false ∧
      ∃ history,
        Chronicle .crashing (fun _ _ => False) (Stages.block (.ofMillis 0) 1) history unanswered ∧
        ∃ t, unanswered.tasks[0]? = some t ∧
          t.descriptor.strategy = Strategy.merge ([Preset.noCache].map Preset.table) 0 ∧
          t.holding = [] ∧
          ∃ v, t.delivered.items = [v] ∧ t.lastFailure? = some v ∧
            ∃ s : Stage, ¬s.Delivers ∧ RecordedBy history 0 s v := by
  have hp : ∃ p ∈ [Preset.noCache], p.reachesNet = true := ⟨.noCache, by decide, rfl⟩
  have hr : Reachable .crashing (fun _ _ => False) (Stages.block (.ofMillis 0) 1) unanswered :=
    Reachable.steps (.step (.start ()) (.submit _ ping)) (turns_steps _ _)
  obtain ⟨history, h⟩ := Chronicle.exists_of_reachable hr
  obtain ⟨t, ht⟩ : ∃ t, unanswered.tasks[0]? = some t := ⟨_, rfl⟩
  have hs : (unanswered.tasks[0]?.map fun t => t.descriptor.strategy) =
    some (Strategy.merge ([Preset.noCache].map Preset.table) 0) := rfl
  have hheld : unanswered.tasks[0]?.map Task.holding = some [] := rfl
  have hfailed : (unanswered.tasks[0]?.all fun t => t.results.items.all fun v => !v.isSuccess) =
    true := by decide +kernel
  rw [ht] at hs hheld hfailed
  obtain ⟨hresults, v, hdel, -, hlast, -⟩ :=
    delivers_once hp h rfl ht (Option.some.inj hs) (Option.some.inj hheld)
  have hnone : ¬∃ w, Found history 0 w := by
    rintro ⟨w, hw⟩
    have hitem := List.all_eq_true.1 hfailed w (hresults ▸ hw.mem_recorded)
    rw [hw.success] at hitem
    exact Bool.noConfusion hitem
  exact ⟨hp, rfl, history, h, t, ht, Option.some.inj hs, Option.some.inj hheld, v, hdel, hlast hnone⟩

end Engine
end RpcFlow
