import Mathlib.Data.List.Induction
import Mathlib.Data.List.Nodup
import Mathlib.Data.List.Perm.Basic
import RpcFlow.Engine.Batch

/-!
# Sorting out a window

Each of the three rules that sort out a window divides the tasks it is given: what is kept and what is
put off are together what there was, and what all three keep can travel together.

* `Batch.splitByTransport_perm`, `Batch.fitSize_perm`, `Batch.mergeHeaders_perm`.
* `Batch.groups_eq`, `Batch.length_fitSize_le`, `Batch.agrees_mergeHeaders` — what is kept has one
  transport, fits the limit of each task, and agrees on the headers.
* `Batch.Sorting` — a window sorted out by the three rules.
-/

set_option autoImplicit false

namespace RpcFlow

/-- What differs in a list differs in every part of it. -/
theorem nodup_map_of_subperm {α β : Type} {f : α → β} {l l' : List α} (h : l.Subperm l')
    (hn : (l'.map f).Nodup) : (l.map f).Nodup := by
  obtain ⟨k, hperm, hsub⟩ := h
  exact (hperm.map f).nodup_iff.1 (hn.sublist (hsub.map f))

namespace Batch

theorem addToGroup_perm (groups : List (List Promise)) (p : Promise) :
    (addToGroup groups p).flatten.Perm (groups.flatten ++ [p]) := by
  induction groups with
  | nil => exact .refl _
  | cons group rest ih =>
    unfold addToGroup
    split
    · rw [List.flatten_cons, List.flatten_cons, List.append_assoc, List.append_assoc]
      exact List.perm_append_comm.append_left group
    · rw [List.flatten_cons, List.flatten_cons, List.append_assoc]
      exact ih.append_left group

theorem foldl_addToGroup_perm (ps : List Promise) (start : List (List Promise)) :
    (ps.foldl addToGroup start).flatten.Perm (start.flatten ++ ps) := by
  induction ps generalizing start with
  | nil => rw [List.foldl_nil, List.append_nil]
  | cons p ps ih =>
    refine (ih (addToGroup start p)).trans ?_
    rw [← List.singleton_append (l := ps), ← List.append_assoc]
    exact (addToGroup_perm start p).append_right ps

/-- The group that is kept and the other groups are what there was. -/
theorem splitByTransport_perm (ps : List Promise) :
    ((splitByTransport ps).1 ++ (splitByTransport ps).2).Perm ps := by
  have hg : (groups ps).flatten.Perm ps := foldl_addToGroup_perm ps []
  refine List.Perm.trans ?_ hg
  simp only [splitByTransport]
  generalize largest (groups ps) = i
  cases hi : (groups ps)[i]? with
  | none =>
    rw [List.eraseIdx_of_length_le (List.getElem?_eq_none_iff.1 hi)]
    exact .refl _
  | some group =>
    obtain ⟨hlt, hget⟩ := List.getElem?_eq_some_iff.1 hi
    have hp : (group :: (groups ps).eraseIdx i).Perm (groups ps) := by
      rw [← hget]
      exact List.getElem_cons_eraseIdx_perm hlt
    exact hp.flatten

/-- A walk that puts every promise on one of two heaps puts them all there. -/
theorem foldl_heaps_perm {β : Type} {add : β → Promise → β} {first second : β → List Promise}
    (hstep : ∀ b p, (first (add b p) ++ second (add b p)).Perm (first b ++ second b ++ [p]))
    (l : List Promise) (b : β) :
    (first (l.foldl add b) ++ second (l.foldl add b)).Perm (first b ++ second b ++ l) := by
  induction l generalizing b with
  | nil => rw [List.foldl_nil, List.append_nil]
  | cons p l ih =>
    refine (ih (add b p)).trans ?_
    rw [← List.singleton_append (l := l), ← List.append_assoc]
    exact (hstep b p).append_right l

/-- What fits and what does not are what there was. -/
theorem fitSize_perm (ps : List Promise) : ((fitSize ps).1 ++ (fitSize ps).2).Perm ps := by
  have hstep : ∀ (f : Fit) (p : Promise),
      ((f.add p).taken ++ (f.add p).deferred).Perm (f.taken ++ f.deferred ++ [p]) := by
    intro f p
    simp only [Fit.add]
    split
    · simp only [List.append_assoc]
      exact List.perm_append_comm.append_left f.taken
    · rw [List.append_assoc]
  have hall := foldl_heaps_perm hstep ps ⟨[], [], none⟩
  simp only [fitSize]
  generalize ps.foldl Fit.add ⟨[], [], none⟩ = f at hall
  generalize (f.taken.head?.map fun p => p.descriptor.maxBatchSize).getD 0 = n
  refine List.Perm.trans ?_ hall
  have hcut : f.taken ++ f.deferred = f.taken.take n ++ (f.taken.drop n ++ f.deferred) := by
    rw [← List.append_assoc, List.take_append_drop]
  rw [hcut]
  exact List.perm_append_comm.append_left _

/-- A task is pulled out, or kept with its headers. -/
theorem Merge.add_cases (m : Merge) (p : Promise) :
    (conflicts m.headers p.descriptor.headers = true ∧
      m.add p = { m with conflicting := m.conflicting ++ [p] }) ∨
    (conflicts m.headers p.descriptor.headers = false ∧
      m.add p = ⟨m.kept ++ [p], Dict.overlay m.headers p.descriptor.headers, m.conflicting⟩) := by
  rw [Merge.add]
  split
  · rename_i hconflict
    exact .inl ⟨hconflict, rfl⟩
  · rename_i hagree
    exact .inr ⟨Bool.not_eq_true _ ▸ hagree, rfl⟩

/-- What agrees and what does not are what there was. -/
theorem mergeHeaders_perm (ps : List Promise) :
    ((mergeHeaders ps).kept ++ (mergeHeaders ps).conflicting).Perm ps := by
  have hstep : ∀ (m : Merge) (p : Promise),
      ((m.add p).kept ++ (m.add p).conflicting).Perm (m.kept ++ m.conflicting ++ [p]) := by
    intro m p
    obtain ⟨-, hadd⟩ | ⟨-, hadd⟩ := m.add_cases p <;> rw [hadd]
    · rw [List.append_assoc]
    · simp only [List.append_assoc]
      exact List.perm_append_comm.append_left m.kept
  exact foldl_heaps_perm hstep ps ⟨[], [], []⟩

/-! ## One transport -/

/-- Does the task use this transport? -/
def uses (transport : String) (p : Promise) : Bool := p.descriptor.transport == transport

/-- The transports of some tasks, in order of first appearance. -/
def transports (ps : List Promise) : List String :=
  ps.foldl
    (fun ts p => if p.descriptor.transport ∈ ts then ts else ts ++ [p.descriptor.transport]) []

theorem transports_append (ps : List Promise) (p : Promise) :
    transports (ps ++ [p]) =
      if p.descriptor.transport ∈ transports ps then transports ps
      else transports ps ++ [p.descriptor.transport] := by
  rw [transports, List.foldl_append]
  rfl

theorem mem_transports {ps : List Promise} {t : String} :
    t ∈ transports ps ↔ ∃ p ∈ ps, p.descriptor.transport = t := by
  induction ps using List.reverseRecOn with
  | nil => simp [transports]
  | append_singleton ps p ih =>
    have hp : (∃ q ∈ ps ++ [p], q.descriptor.transport = t) ↔
        (∃ q ∈ ps, q.descriptor.transport = t) ∨ p.descriptor.transport = t := by
      simp [List.mem_append, or_and_right, exists_or]
    rw [transports_append, hp, ← ih]
    split
    · rename_i hmem
      exact ⟨.inl, fun h => h.elim id fun h => h ▸ hmem⟩
    · rw [List.mem_append, List.mem_singleton]
      exact or_congr_right eq_comm

theorem nodup_transports (ps : List Promise) : (transports ps).Nodup := by
  induction ps using List.reverseRecOn with
  | nil => exact List.nodup_nil
  | append_singleton ps p ih =>
    rw [transports_append]
    split
    · exact ih
    · rename_i hnot
      refine List.nodup_append.2 ⟨ih, by simp, fun t ht u hu => ?_⟩
      rw [List.mem_singleton.1 hu]
      exact fun h => hnot (h ▸ ht)

/-- The transport of a group is that of its first task. -/
theorem head_uses {ps : List Promise} {t : String} (h : ∃ q ∈ ps, q.descriptor.transport = t)
    (u : String) :
    ((ps.filter (uses t)).head?.any fun q => q.descriptor.transport == u) = (t == u) := by
  obtain ⟨q, hq, hqt⟩ := h
  have hmem : q ∈ ps.filter (uses t) := List.mem_filter.2 ⟨hq, beq_iff_eq.2 hqt⟩
  cases hf : ps.filter (uses t) with
  | nil => exact absurd (hf ▸ hmem) List.not_mem_nil
  | cons r rest =>
    have hr : r ∈ ps.filter (uses t) := hf ▸ List.mem_cons_self
    rw [List.head?_cons, Option.any_some, beq_iff_eq.1 (List.mem_filter.1 hr).2]

/-- A task joins the group of its transport, and the other groups stay as they are. -/
theorem addToGroup_map {ts : List String} {ps : List Promise} {p : Promise} (hn : ts.Nodup)
    (hts : ∀ t ∈ ts, ∃ q ∈ ps, q.descriptor.transport = t)
    (hnew : p.descriptor.transport ∉ ts →
      ∀ q ∈ ps, q.descriptor.transport ≠ p.descriptor.transport) :
    addToGroup (ts.map fun t => ps.filter (uses t)) p =
      (if p.descriptor.transport ∈ ts then ts else ts ++ [p.descriptor.transport]).map
        fun t => (ps ++ [p]).filter (uses t) := by
  have hother : ∀ t, t ≠ p.descriptor.transport →
      (ps ++ [p]).filter (uses t) = ps.filter (uses t) := by
    intro t ht
    rw [List.filter_append, List.filter_cons_of_neg (by simp [uses, Ne.symm ht]), List.filter_nil,
      List.append_nil]
  have hsame : (ps ++ [p]).filter (uses p.descriptor.transport) =
      ps.filter (uses p.descriptor.transport) ++ [p] := by
    rw [List.filter_append, List.filter_cons_of_pos (by simp [uses]), List.filter_nil]
  induction ts with
  | nil =>
    have hnone : ps.filter (uses p.descriptor.transport) = [] := by
      rw [List.filter_eq_nil_iff]
      intro q hq hu
      exact hnew List.not_mem_nil q hq (beq_iff_eq.1 hu)
    rw [hnone, List.nil_append] at hsame
    rw [if_neg List.not_mem_nil, List.nil_append, List.map_singleton, hsame]
    rfl
  | cons t ts ih =>
    obtain ⟨hnot, hn⟩ := List.nodup_cons.1 hn
    have hhead := head_uses (hts t List.mem_cons_self) p.descriptor.transport
    by_cases ht : t = p.descriptor.transport
    · have hrest : ∀ u ∈ ts, (ps ++ [p]).filter (uses u) = ps.filter (uses u) := fun u hu =>
        hother u fun h => hnot (ht ▸ h ▸ hu)
      rw [List.map_cons, addToGroup, hhead, if_pos (beq_iff_eq.2 ht),
        if_pos (ht ▸ List.mem_cons_self), List.map_cons, List.map_congr_left hrest, ht, hsame]
    · rw [List.map_cons, addToGroup, hhead, if_neg fun h => ht (beq_iff_eq.1 h),
        ih hn (fun u hu => hts u (List.mem_cons_of_mem t hu)) fun hu => hnew fun hmem =>
          (List.mem_cons.1 hmem).elim (fun h => ht h.symm) hu]
      have hmem : p.descriptor.transport ∈ t :: ts ↔ p.descriptor.transport ∈ ts := by
        simp [Ne.symm ht]
      by_cases hp : p.descriptor.transport ∈ ts
      · rw [if_pos hp, if_pos (hmem.2 hp), List.map_cons, hother t ht]
      · rw [if_neg hp, if_neg fun h => hp (hmem.1 h), List.cons_append, List.map_cons, hother t ht]

/-- **The groups are the tasks of each transport**, in order of first appearance. -/
theorem groups_eq (ps : List Promise) :
    groups ps = (transports ps).map fun t => ps.filter (uses t) := by
  induction ps using List.reverseRecOn with
  | nil => rfl
  | append_singleton ps p ih =>
    have hstep : groups (ps ++ [p]) = addToGroup (groups ps) p := by
      rw [groups, List.foldl_append]
      rfl
    rw [hstep, ih, addToGroup_map (nodup_transports ps) (fun t ht => mem_transports.1 ht)
      fun hnot q hq h => hnot (mem_transports.2 ⟨q, hq, h⟩), transports_append]

/-- The number of the largest group is that of a group. -/
theorem largest_lt {gs : List (List Promise)} (h : gs ≠ []) : largest gs < gs.length := by
  obtain ⟨m, hm⟩ : ∃ m, (gs.map List.length).max? = some m :=
    Option.ne_none_iff_exists'.1 fun hnone => h (by simpa using hnone)
  obtain ⟨hmem, hle⟩ := List.max?_eq_some_iff.1 hm
  have hlt : largest gs < (gs.map List.length).length := by
    refine List.findIdx_lt_length_of_exists ⟨m, hmem, ?_⟩
    simpa using hle
  rwa [List.length_map] at hlt

theorem groups_ne_nil {ps : List Promise} (h : ps ≠ []) : groups ps ≠ [] := by
  obtain ⟨p, hp⟩ := List.exists_mem_of_ne_nil ps h
  have ht : p.descriptor.transport ∈ transports ps := mem_transports.2 ⟨p, hp, rfl⟩
  rw [groups_eq]
  exact fun hnil => List.not_mem_nil (List.map_eq_nil_iff.1 hnil ▸ ht)

/-- The number of the largest group is that of a transport. -/
theorem exists_largest {ps : List Promise} (h : ps ≠ []) :
    ∃ t, (transports ps)[largest (groups ps)]? = some t := by
  have hlt := largest_lt (groups_ne_nil h)
  rw [groups_eq, List.length_map, ← groups_eq] at hlt
  exact ⟨_, List.getElem?_eq_getElem hlt⟩

theorem getElem?_groups {ps : List Promise} {i : Nat} {t : String}
    (h : (transports ps)[i]? = some t) : (groups ps)[i]? = some (ps.filter (uses t)) := by
  rw [groups_eq, List.getElem?_map, h, Option.map_some]

/-- The tasks of the transport with the largest group are kept, and those of the others put off. -/
theorem splitByTransport_eq {ps : List Promise} {t : String}
    (h : (transports ps)[largest (groups ps)]? = some t) :
    splitByTransport ps =
      (ps.filter (uses t), ((transports ps).erase t).flatMap fun u => ps.filter (uses u)) := by
  obtain ⟨hlt, rfl⟩ := List.getElem?_eq_some_iff.1 h
  have hothers : (groups ps).eraseIdx (largest (groups ps)) =
      ((transports ps).erase (transports ps)[largest (groups ps)]).map
        fun u => ps.filter (uses u) := by
    rw [(nodup_transports ps).erase_getElem, ← List.eraseIdx_map, ← groups_eq]
  simp only [splitByTransport, getElem?_groups h, Option.getD_some, hothers, List.flatMap_def]

/-- The tasks that are kept are all those of one transport. -/
theorem splitByTransport_fst {ps : List Promise} (h : ps ≠ []) :
    ∃ t ∈ transports ps, (splitByTransport ps).1 = ps.filter (uses t) := by
  obtain ⟨t, ht⟩ := exists_largest h
  exact ⟨t, List.mem_of_getElem? ht, congrArg Prod.fst (splitByTransport_eq ht)⟩

theorem splitByTransport_sublist (ps : List Promise) : (splitByTransport ps).1.Sublist ps := by
  by_cases h : ps = []
  · subst h
    exact .slnil
  · obtain ⟨t, -, ht⟩ := splitByTransport_fst h
    rw [ht]
    exact List.filter_sublist

/-- Tasks that are kept together have one transport. -/
theorem transport_splitByTransport {ps : List Promise} {p q : Promise}
    (hp : p ∈ (splitByTransport ps).1) (hq : q ∈ (splitByTransport ps).1) :
    p.descriptor.transport = q.descriptor.transport := by
  have hne : ps ≠ [] := List.ne_nil_of_mem ((splitByTransport_sublist ps).subset hp)
  obtain ⟨t, -, ht⟩ := splitByTransport_fst hne
  rw [ht] at hp hq
  exact (beq_iff_eq.1 (List.mem_filter.1 hp).2).trans (beq_iff_eq.1 (List.mem_filter.1 hq).2).symm

theorem splitByTransport_ne_nil {ps : List Promise} (h : ps ≠ []) :
    (splitByTransport ps).1 ≠ [] := by
  obtain ⟨t, ht, hf⟩ := splitByTransport_fst h
  obtain ⟨p, hp, hpt⟩ := mem_transports.1 ht
  rw [hf]
  exact List.ne_nil_of_mem (List.mem_filter.2 ⟨hp, beq_iff_eq.2 hpt⟩)

/-! ## One size -/

/-- A walk that adds some of the promises to a heap adds them in order. -/
theorem foldl_heap_sublist {β : Type} {add : β → Promise → β} (heap : β → List Promise)
    (hstep : ∀ b p, heap (add b p) = heap b ∨ heap (add b p) = heap b ++ [p]) (l : List Promise)
    (b : β) : ∃ l', l'.Sublist l ∧ heap (l.foldl add b) = heap b ++ l' := by
  induction l generalizing b with
  | nil => exact ⟨[], .slnil, (List.append_nil _).symm⟩
  | cons p l ih =>
    obtain ⟨l', hsub, hl⟩ := ih (add b p)
    rw [List.foldl_cons, hl]
    rcases hstep b p with h | h
    · exact ⟨l', hsub.cons p, by rw [h]⟩
    · exact ⟨p :: l', hsub.cons_cons p, by rw [h, List.append_assoc]; rfl⟩

/-- The least of a limit and the cap so far, if there is one. -/
def Fit.capWith (f : Fit) (limit : Nat) : Nat := (f.cap.map (min limit)).getD limit

/-- A promise is taken below its limit and the cap, or put off because one of them is reached. -/
theorem Fit.add_cases (f : Fit) (p : Promise) :
    (f.taken.length < p.descriptor.maxBatchSize ∧ (∀ c, f.cap = some c → f.taken.length < c) ∧
      f.add p = ⟨f.taken ++ [p], f.deferred, some (f.capWith p.descriptor.maxBatchSize)⟩) ∨
    ((p.descriptor.maxBatchSize ≤ f.taken.length ∨ ∃ c, f.cap = some c ∧ c ≤ f.taken.length) ∧
      f.add p = { f with deferred := f.deferred ++ [p] }) := by
  simp only [Fit.add]
  split
  · rename_i hfits
    rw [Bool.and_eq_true, decide_eq_true_eq] at hfits
    refine .inl ⟨hfits.2, fun c hc => ?_, rfl⟩
    simpa [hc] using hfits.1
  · rename_i hfull
    refine .inr ⟨?_, rfl⟩
    rw [Bool.and_eq_true, decide_eq_true_eq, not_and_or, Nat.not_lt] at hfull
    refine hfull.symm.imp_right fun hcap => ?_
    cases hc : f.cap with
    | none => simp [hc] at hcap
    | some c => exact ⟨c, rfl, by simpa [hc] using hcap⟩

/-- The tasks taken so far are no more than each of them allows, and neither is the cap. -/
structure Fit.Fits (f : Fit) : Prop where
  size : ∀ p ∈ f.taken, f.taken.length ≤ p.descriptor.maxBatchSize
  cap : ∀ p ∈ f.taken, ∃ c, f.cap = some c ∧ c ≤ p.descriptor.maxBatchSize

/-- What is taken is below the cap, so that one more is within it. -/
theorem Fit.Fits.add {f : Fit} (h : f.Fits) (p : Promise) : (f.add p).Fits := by
  obtain ⟨hlimit, hcap, hadd⟩ | ⟨-, hadd⟩ := f.add_cases p <;> rw [hadd]
  · refine ⟨fun q hq => ?_, fun q hq => ⟨_, rfl, ?_⟩⟩
    · rw [List.length_append, List.length_singleton]
      rcases List.mem_append.1 hq with hq | hq
      · obtain ⟨c, hc, hle⟩ := h.cap q hq
        exact Nat.le_trans (hcap c hc) hle
      · rw [List.mem_singleton.1 hq]
        exact hlimit
    · rcases List.mem_append.1 hq with hq | hq
      · obtain ⟨c, hc, hle⟩ := h.cap q hq
        rw [Fit.capWith, hc]
        exact Nat.le_trans (Nat.min_le_right _ c) hle
      · rw [List.mem_singleton.1 hq, Fit.capWith]
        cases f.cap with
        | none => exact Nat.le_refl _
        | some c => exact Nat.min_le_left _ c
  · exact ⟨h.size, h.cap⟩

theorem fits_foldl (ps : List Promise) : (ps.foldl Fit.add ⟨[], [], none⟩).Fits :=
  List.foldlRecOn ps Fit.add
    ⟨fun _ h => absurd h List.not_mem_nil, fun _ h => absurd h List.not_mem_nil⟩ fun _ h p _ => h.add p

theorem Fit.taken_add (f : Fit) (p : Promise) :
    (f.add p).taken = f.taken ∨ (f.add p).taken = f.taken ++ [p] := by
  obtain ⟨-, -, hadd⟩ | ⟨-, hadd⟩ := f.add_cases p <;> rw [hadd]
  · exact .inr rfl
  · exact .inl rfl

theorem Fit.deferred_add (f : Fit) (p : Promise) :
    (f.add p).deferred = f.deferred ∨ (f.add p).deferred = f.deferred ++ [p] := by
  obtain ⟨-, -, hadd⟩ | ⟨-, hadd⟩ := f.add_cases p <;> rw [hadd]
  · exact .inl rfl
  · exact .inr rfl

/-- **The cut to the limit of the first task never removes anything.** -/
theorem fitSize_eq (ps : List Promise) :
    fitSize ps = ((ps.foldl Fit.add ⟨[], [], none⟩).taken,
      (ps.foldl Fit.add ⟨[], [], none⟩).deferred) := by
  have hfits := fits_foldl ps
  simp only [fitSize]
  generalize ps.foldl Fit.add ⟨[], [], none⟩ = f at hfits
  cases hhead : f.taken with
  | nil => simp
  | cons p rest =>
    have hle := hfits.size p (hhead ▸ List.mem_cons_self)
    rw [hhead] at hle
    rw [List.head?_cons, Option.map_some, Option.getD_some, List.take_of_length_le hle,
      List.drop_of_length_le hle, List.append_nil]

/-- **What fits on one call is no more than each of its tasks allows.** -/
theorem length_fitSize_le {ps : List Promise} {p : Promise} (hp : p ∈ (fitSize ps).1) :
    (fitSize ps).1.length ≤ p.descriptor.maxBatchSize := by
  rw [fitSize_eq] at hp ⊢
  exact (fits_foldl ps).size p hp

theorem fitSize_sublist (ps : List Promise) : (fitSize ps).1.Sublist ps := by
  obtain ⟨l, hsub, hl⟩ := foldl_heap_sublist Fit.taken Fit.taken_add ps ⟨[], [], none⟩
  rw [fitSize_eq, hl, List.nil_append]
  exact hsub

/-- The first task is taken if a call may hold it at all. -/
theorem head?_fitSize {ps : List Promise} (hsize : ∀ p ∈ ps, 1 ≤ p.descriptor.maxBatchSize) :
    (fitSize ps).1.head? = ps.head? := by
  cases ps with
  | nil => rfl
  | cons p rest =>
    have hfirst : (Fit.add ⟨[], [], none⟩ p).taken = [p] := by
      obtain ⟨-, -, hadd⟩ | ⟨hfull, -⟩ := Fit.add_cases ⟨[], [], none⟩ p
      · rw [hadd, List.nil_append]
      · have hp := hsize p List.mem_cons_self
        rcases hfull with hfull | ⟨c, hc, -⟩
        · exact absurd (Nat.le_trans hp hfull) (Nat.not_succ_le_zero 0)
        · cases hc
    obtain ⟨l, -, hl⟩ := foldl_heap_sublist Fit.taken Fit.taken_add rest (Fit.add ⟨[], [], none⟩ p)
    rw [fitSize_eq, List.foldl_cons, hl, hfirst]
    rfl

theorem fitSize_ne_nil {ps : List Promise} (h : ps ≠ [])
    (hsize : ∀ p ∈ ps, 1 ≤ p.descriptor.maxBatchSize) : (fitSize ps).1 ≠ [] := fun hnil => by
  have hhead := head?_fitSize hsize
  rw [hnil] at hhead
  exact h (List.head?_eq_none_iff.1 hhead.symm)

/-! ## One set of headers -/

theorem of_not_conflicts {merged headers : Dict String} (h : conflicts merged headers = false)
    {name value value' : String} (hm : Dict.at? merged name = some value)
    (hh : (name, value') ∈ headers) : value = value' := by
  have hnone := List.any_eq_false.1 h (name, value') hh
  rw [hm, Option.any_some, bne_iff_ne, ne_eq, Decidable.not_not] at hnone
  exact hnone

/-- The headers kept so far are those of the tasks kept so far. -/
def Merge.Agrees (m : Merge) : Prop :=
  ∀ name value, Dict.at? m.headers name = some value ↔
    ∃ p ∈ m.kept, Dict.at? p.descriptor.headers name = some value

theorem Merge.Agrees.add {m : Merge} (h : m.Agrees) {p : Promise}
    (hp : Dict.Sorted p.descriptor.headers) : (m.add p).Agrees := by
  obtain ⟨-, hadd⟩ | ⟨hconflict, hadd⟩ := m.add_cases p <;> rw [hadd]
  · exact h
  · intro name value
    rw [Dict.at?_overlay hp, Option.or_eq_some_iff]
    constructor
    · rintro (hv | ⟨-, hv⟩)
      · exact ⟨p, List.mem_append_right _ List.mem_cons_self, hv⟩
      · obtain ⟨q, hq, hqv⟩ := (h name value).1 hv
        exact ⟨q, List.mem_append_left _ hq, hqv⟩
    · rintro ⟨q, hq, hqv⟩
      rcases List.mem_append.1 hq with hq | hq
      · have hv := (h name value).2 ⟨q, hq, hqv⟩
        cases hpv : Dict.at? p.descriptor.headers name with
        | none => exact .inr ⟨rfl, hv⟩
        | some w => exact .inl (of_not_conflicts hconflict hv (Dict.mem_of_at? hpv) ▸ rfl)
      · rw [List.mem_singleton.1 hq] at hqv
        exact .inl hqv

/-- **The merged headers are those of the tasks that are kept.** -/
theorem agrees_mergeHeaders {ps : List Promise}
    (h : ∀ p ∈ ps, Dict.Sorted p.descriptor.headers) : (mergeHeaders ps).Agrees := by
  have hfold : ∀ m : Merge, m.Agrees → (ps.foldl Merge.add m).Agrees := by
    induction ps with
    | nil => exact fun m hm => hm
    | cons p ps ih =>
      exact fun m hm => ih (fun q hq => h q (List.mem_cons_of_mem p hq)) (m.add p)
        (hm.add (h p List.mem_cons_self))
  exact hfold ⟨[], [], []⟩ fun name value => by simp

theorem Merge.kept_add (m : Merge) (p : Promise) :
    (m.add p).kept = m.kept ∨ (m.add p).kept = m.kept ++ [p] := by
  obtain ⟨-, hadd⟩ | ⟨-, hadd⟩ := m.add_cases p <;> rw [hadd]
  · exact .inl rfl
  · exact .inr rfl

theorem mergeHeaders_sublist (ps : List Promise) : (mergeHeaders ps).kept.Sublist ps := by
  obtain ⟨l, hsub, hl⟩ := foldl_heap_sublist Merge.kept Merge.kept_add ps ⟨[], [], []⟩
  rw [mergeHeaders, hl, List.nil_append]
  exact hsub

/-- The headers of the first task agree with those before it, of which there are none. -/
theorem head?_mergeHeaders (ps : List Promise) : (mergeHeaders ps).kept.head? = ps.head? := by
  cases ps with
  | nil => rfl
  | cons p rest =>
    have hfirst : (Merge.add ⟨[], [], []⟩ p).kept = [p] := by
      have hnone : conflicts [] p.descriptor.headers = false := by simp [conflicts]
      simp only [Merge.add, hnone, Bool.false_eq_true, if_false, List.nil_append]
    obtain ⟨l, -, hl⟩ := foldl_heap_sublist Merge.kept Merge.kept_add rest
      (Merge.add ⟨[], [], []⟩ p)
    rw [mergeHeaders, List.foldl_cons, hl, hfirst]
    rfl

theorem mergeHeaders_ne_nil {ps : List Promise} (h : ps ≠ []) : (mergeHeaders ps).kept ≠ [] :=
  fun hnil => by
    have hhead := head?_mergeHeaders ps
    rw [hnil] at hhead
    exact h (List.head?_eq_none_iff.1 hhead.symm)

/-! ## The three rules together -/

/-- Some tasks divided by a rule: those kept, in order of arrival, and those put off. -/
structure Cut (ps : List Promise) where
  kept : List Promise
  deferred : List Promise
  perm : (kept ++ deferred).Perm ps
  order : kept.Sublist ps

namespace Cut

variable (ps : List Promise)

/-- The rule that keeps everything. -/
def whole : Cut ps := ⟨ps, [], by rw [List.append_nil], List.Sublist.refl ps⟩

/-- The largest group of tasks with one transport. -/
def byTransport : Cut ps :=
  ⟨(splitByTransport ps).1, (splitByTransport ps).2, splitByTransport_perm ps,
    splitByTransport_sublist ps⟩

/-- As many tasks as fit. -/
def bySize : Cut ps := ⟨(fitSize ps).1, (fitSize ps).2, fitSize_perm ps, fitSize_sublist ps⟩

/-- The tasks that agree on the headers. -/
def byHeaders : Cut ps :=
  ⟨(mergeHeaders ps).kept, (mergeHeaders ps).conflicting, mergeHeaders_perm ps,
    mergeHeaders_sublist ps⟩

end Cut

/-- A window sorted out: by transport, by size and by headers.  What is left can travel together. -/
structure Sorting (ps : List Promise) where
  transports : Cut ps
  sizes : Cut transports.kept
  headers : Cut sizes.kept
  /-- The headers of the call. -/
  merged : Dict String
  transport : ∀ p ∈ headers.kept, ∀ q ∈ headers.kept,
    p.descriptor.transport = q.descriptor.transport
  /-- A task that does not allow for others travels alone. -/
  size : ∀ p ∈ headers.kept, headers.kept.length ≤ max p.descriptor.maxBatchSize 1
  agree : (∀ p ∈ ps, Dict.Sorted p.descriptor.headers) →
    ∀ name value, Dict.at? merged name = some value ↔
      ∃ p ∈ headers.kept, Dict.at? p.descriptor.headers name = some value
  nonempty : ps ≠ [] → (∀ p ∈ ps, 1 ≤ p.descriptor.maxBatchSize) → headers.kept ≠ []

namespace Sorting

variable {ps : List Promise}

/-- The tasks that are sent. -/
def sent (s : Sorting ps) : List Promise := s.headers.kept

/-- The tasks that wait for the next window, in the order in which they are sent back. -/
def deferred (s : Sorting ps) : List Promise :=
  s.transports.deferred ++ s.sizes.deferred ++ s.headers.deferred

theorem sent_sublist (s : Sorting ps) : s.sent.Sublist ps :=
  s.headers.order.trans (s.sizes.order.trans s.transports.order)

/-- **Every task of a window is sent or put off.** -/
theorem perm (s : Sorting ps) : (s.deferred ++ s.sent).Perm ps := by
  have hsizes : (s.sizes.deferred ++ s.sizes.kept).Perm s.transports.kept :=
    List.perm_append_comm.trans s.sizes.perm
  have htransports : (s.transports.deferred ++ s.transports.kept).Perm ps :=
    List.perm_append_comm.trans s.transports.perm
  have hheaders : (s.headers.deferred ++ s.headers.kept).Perm s.sizes.kept :=
    List.perm_append_comm.trans s.headers.perm
  rw [deferred, sent, List.append_assoc, List.append_assoc]
  exact (((hheaders.append_left _).trans hsizes).append_left _).trans htransports

/-- A task that is left alone, so that no further rule is needed. -/
def alone (transports : Cut ps) (sizes : Cut transports.kept) {p : Promise}
    (h : sizes.kept = [p]) : Sorting ps where
  transports
  sizes
  headers := .whole sizes.kept
  merged := p.descriptor.headers
  transport := by
    intro q hq r hr
    rw [Cut.whole, h, List.mem_singleton] at hq hr
    rw [hq, hr]
  size := by
    intro q _
    rw [Cut.whole, h]
    exact Nat.le_max_right _ 1
  agree := fun _ name value => by simp [Cut.whole, h]
  nonempty := fun _ _ => by simp [Cut.whole, h]

/-- A window sorted out by all three rules. -/
def together (ps : List Promise) : Sorting ps where
  transports := .byTransport ps
  sizes := .bySize _
  headers := .byHeaders _
  merged := (mergeHeaders (fitSize (splitByTransport ps).1).1).headers
  transport := fun _ hp _ hq => transport_splitByTransport
    ((fitSize_sublist _).subset ((mergeHeaders_sublist _).subset hp))
    ((fitSize_sublist _).subset ((mergeHeaders_sublist _).subset hq))
  size := fun p hp => by
    have hle := length_fitSize_le ((mergeHeaders_sublist _).subset hp)
    have hkept := (mergeHeaders_sublist (fitSize (splitByTransport ps).1).1).length_le
    exact Nat.le_trans (Nat.le_trans hkept hle) (Nat.le_max_left _ 1)
  agree := fun hsorted => agrees_mergeHeaders fun p hp => hsorted p
    ((splitByTransport_sublist ps).subset ((fitSize_sublist _).subset hp))
  nonempty := fun hne hsize => mergeHeaders_ne_nil (fitSize_ne_nil (splitByTransport_ne_nil hne)
    fun p hp => hsize p ((splitByTransport_sublist ps).subset hp))

end Sorting

end Batch
end RpcFlow
