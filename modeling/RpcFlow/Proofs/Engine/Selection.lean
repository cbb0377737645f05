import RpcFlow.Proofs.Engine.Windows

/-!
# What a window selects

The rules that sort out a window keep the most that the order of arrival allows.

* `Batch.Majority` — what `Batch.splitByTransport` gives.  Its groups are the tasks of each transport in
  order of first use, so the first of the largest groups is that of the transport that is used first.
* `Batch.Fit.Exhausts` — along the walk, whatever was put off would be too much for itself or for a task
  already taken.  What is taken later only adds to that, so a refusal still stands at the end.
* `Batch.BestFit` — what `Batch.fitSize` gives.
* `Batch.keepsAt` — whether a task stays, which hangs on those that stay before it.
* `Batch.FirstCome` — what `Batch.mergeHeaders` gives.
-/

set_option autoImplicit false

namespace RpcFlow
namespace Batch

/-! ## One transport -/

/-- The place of the first task that uses a transport, the number of tasks if none does. -/
def firstUse (ps : List Promise) (t : String) : Nat := ps.findIdx (uses t)

theorem firstUse_lt {ps : List Promise} {t : String} (h : t ∈ transports ps) :
    firstUse ps t < ps.length := by
  obtain ⟨q, hq, hqt⟩ := mem_transports.1 h
  exact List.findIdx_lt_length.2 ⟨q, hq, beq_iff_eq.2 hqt⟩

theorem firstUse_append {ps : List Promise} {t : String} (h : t ∈ transports ps) (p : Promise) :
    firstUse (ps ++ [p]) t = firstUse ps t := by
  rw [firstUse, List.findIdx_append]
  exact if_pos (firstUse_lt h)

theorem firstUse_append_of_new {ps : List Promise} {p : Promise}
    (h : p.descriptor.transport ∉ transports ps) :
    firstUse (ps ++ [p]) p.descriptor.transport = ps.length := by
  have hnone : ps.findIdx (uses p.descriptor.transport) = ps.length :=
    List.findIdx_eq_length.2 fun q hq => beq_eq_false_iff_ne.2 fun hqt =>
      h (mem_transports.2 ⟨q, hq, hqt⟩)
  rw [firstUse, List.findIdx_append, hnone, if_neg (Nat.lt_irrefl _), List.findIdx_cons]
  simp [uses]

/-- The transports come in the order in which the tasks first use them. -/
theorem transports_ordered (ps : List Promise) :
    (transports ps).Pairwise fun t u => firstUse ps t < firstUse ps u := by
  induction ps using List.reverseRecOn with
  | nil => exact .nil
  | append_singleton ps p ih =>
    have hold : (transports ps).Pairwise fun t u =>
        firstUse (ps ++ [p]) t < firstUse (ps ++ [p]) u :=
      ih.imp_of_mem fun ht hu hlt => by rwa [firstUse_append ht, firstUse_append hu]
    rw [transports_append]
    split
    · exact hold
    · rename_i hnew
      refine List.pairwise_append.2 ⟨hold, List.pairwise_singleton _ _, fun t ht u hu => ?_⟩
      rw [List.mem_singleton.1 hu, firstUse_append ht, firstUse_append_of_new hnew]
      exact firstUse_lt ht

/-- No group has more tasks than the largest, and those before it have fewer. -/
theorem length_le_largest {gs : List (List Promise)} {most group : List Promise} {j : Nat}
    (hmost : gs[largest gs]? = some most) (hgroup : gs[j]? = some group) :
    group.length ≤ most.length ∧ (j < largest gs → group.length < most.length) := by
  obtain ⟨hlt, rfl⟩ := List.getElem?_eq_some_iff.1 hmost
  have hfound : ∀ g ∈ gs, g.length ≤ gs[largest gs].length := by
    have hmap : largest gs < (gs.map List.length).length := by rwa [List.length_map]
    have hall := List.all_eq_true.1 (List.findIdx_getElem (w := hmap))
    intro g hg
    have hle := hall _ (List.mem_map_of_mem hg)
    exact Nat.le_trans (of_decide_eq_true hle) (Nat.le_of_eq (List.getElem_map _))
  refine ⟨hfound _ (List.mem_of_getElem? hgroup), fun hbefore => ?_⟩
  obtain ⟨-, rfl⟩ := List.getElem?_eq_some_iff.1 hgroup
  obtain ⟨n, hn, hmore⟩ := List.all_eq_false.1 (List.not_of_lt_findIdx hbefore)
  obtain ⟨g, hg, rfl⟩ := List.mem_map.1 hn
  rw [decide_eq_true_eq, Nat.not_le, List.getElem_map] at hmore
  exact Nat.lt_of_lt_of_le hmore (hfound g hg)

/-- No transport has more tasks than that of the largest group, and one with as many is used later. -/
theorem largest_most {ps : List Promise} {s t : String}
    (hs : (transports ps)[largest (groups ps)]? = some s) (ht : t ∈ transports ps) :
    (ps.filter (uses t)).length ≤ (ps.filter (uses s)).length ∧
      (t ≠ s → (ps.filter (uses t)).length = (ps.filter (uses s)).length →
        firstUse ps s < firstUse ps t) := by
  obtain ⟨j, ht⟩ := List.mem_iff_getElem?.1 ht
  obtain ⟨hle, hfewer⟩ := length_le_largest (getElem?_groups hs) (getElem?_groups ht)
  refine ⟨hle, fun hne heq => ?_⟩
  -- a group before the largest is smaller, and one after it is of a transport that is used later
  rcases Nat.lt_trichotomy j (largest (groups ps)) with hlt | rfl | hgt
  · exact absurd heq (Nat.ne_of_lt (hfewer hlt))
  · exact absurd (Option.some.inj (ht.symm.trans hs)) hne
  · obtain ⟨hi, rfl⟩ := List.getElem?_eq_some_iff.1 hs
    obtain ⟨hj, rfl⟩ := List.getElem?_eq_some_iff.1 ht
    exact List.pairwise_iff_getElem.1 (transports_ordered ps) _ j hi hj hgt

/-- The tasks of the transport with the most tasks, of several the one that is used first, and the
tasks of the `others`, transport by transport in the order in which they are first used. -/
structure Majority (ps kept deferred : List Promise) (transport : String) (others : List String) :
    Prop where
  keeps : kept = ps.filter (uses transport)
  most : ∀ t, (ps.filter (uses t)).length ≤ kept.length
  earliest : ∀ t, t ≠ transport → ps.filter (uses t) ≠ [] →
    (ps.filter (uses t)).length = kept.length → firstUse ps transport < firstUse ps t
  rest : ∀ t, t ∈ others ↔ t ≠ transport ∧ ∃ q ∈ ps, q.descriptor.transport = t
  ordered : others.Pairwise fun t u => firstUse ps t < firstUse ps u
  defers : deferred = others.flatMap fun t => ps.filter (uses t)
  all : (kept ++ deferred).Perm ps

theorem mem_transports_of_filter {ps : List Promise} {t : String}
    (h : ps.filter (uses t) ≠ []) : t ∈ transports ps := by
  obtain ⟨q, hq⟩ := List.exists_mem_of_ne_nil _ h
  obtain ⟨hq, hqt⟩ := List.mem_filter.1 hq
  exact mem_transports.2 ⟨q, hq, beq_iff_eq.1 hqt⟩

/-- **The transport with the most tasks stays**, of several the one that is used first. -/
theorem splitByTransport_majority (ps : List Promise) :
    ∃ transport others, Majority ps (splitByTransport ps).1 (splitByTransport ps).2 transport
      others := by
  by_cases hne : ps = []
  · subst hne
    exact ⟨"", [], rfl, fun t => Nat.le_refl 0, fun t _ hnil => absurd rfl hnil, by simp, .nil, rfl,
      .refl []⟩
  obtain ⟨s, hs⟩ := exists_largest hne
  have hkept : (splitByTransport ps).1 = ps.filter (uses s) :=
    congrArg Prod.fst (splitByTransport_eq hs)
  refine ⟨s, (transports ps).erase s, hkept, fun t => ?_, fun t ht hused heq => ?_, fun t => ?_,
    (transports_ordered ps).sublist List.erase_sublist, congrArg Prod.snd (splitByTransport_eq hs),
    splitByTransport_perm ps⟩
  · rw [hkept]
    by_cases hused : ps.filter (uses t) = []
    · rw [hused]
      exact Nat.zero_le _
    · exact (largest_most hs (mem_transports_of_filter hused)).1
  · rw [hkept] at heq
    exact (largest_most hs (mem_transports_of_filter hused)).2 ht heq
  · rw [(nodup_transports ps).mem_erase_iff, mem_transports]

/-! ## One size -/

theorem fitSize_deferred_sublist (ps : List Promise) : (fitSize ps).2.Sublist ps := by
  obtain ⟨l, hsub, hl⟩ := foldl_heap_sublist Fit.deferred Fit.deferred_add ps ⟨[], [], none⟩
  rw [fitSize_eq, hl, List.nil_append]
  exact hsub

/-- The cap is the limit of a task that is taken, and what is put off would be too much for its own
limit or for that of a task that is taken. -/
structure Fit.Exhausts (f : Fit) : Prop where
  cap : ∀ c, f.cap = some c → ∃ p ∈ f.taken, p.descriptor.maxBatchSize = c
  full : ∀ p ∈ f.deferred, ∃ q ∈ p :: f.taken, q.descriptor.maxBatchSize ≤ f.taken.length

/-- The cap is the limit of the new task or the cap before. -/
theorem Fit.capWith_eq (f : Fit) (limit : Nat) :
    f.capWith limit = limit ∨ f.cap = some (f.capWith limit) := by
  unfold Fit.capWith
  cases f.cap with
  | none => exact .inl rfl
  | some c =>
    rcases Nat.le_total limit c with h | h
    · exact .inl (Nat.min_eq_left h)
    · exact .inr (congrArg some (Nat.min_eq_right h).symm)

theorem Fit.Exhausts.add {f : Fit} (h : f.Exhausts) (p : Promise) : (f.add p).Exhausts := by
  obtain ⟨-, -, hadd⟩ | ⟨hfull, hadd⟩ := f.add_cases p <;> rw [hadd]
  · have hkeep : ∀ d, d :: f.taken ⊆ d :: (f.taken ++ [p]) := fun d =>
      List.cons_subset_cons d (List.subset_append_left f.taken [p])
    refine ⟨fun c hc => ?_, fun d hd => ?_⟩
    · obtain rfl := Option.some.inj hc
      rcases f.capWith_eq p.descriptor.maxBatchSize with hnew | hold
      · exact ⟨p, List.mem_append_right _ List.mem_cons_self, hnew.symm⟩
      · obtain ⟨q, hq, hqc⟩ := h.cap _ hold
        exact ⟨q, List.mem_append_left _ hq, hqc⟩
    · obtain ⟨q, hq, hle⟩ := h.full d hd
      rw [List.length_append]
      exact ⟨q, hkeep d hq, Nat.le_add_right_of_le hle⟩
  · refine ⟨h.cap, fun d hd => ?_⟩
    rcases List.mem_append.1 hd with hd | hd
    · exact h.full d hd
    · obtain rfl := List.mem_singleton.1 hd
      rcases hfull with hle | ⟨c, hc, hle⟩
      · exact ⟨d, List.mem_cons_self, hle⟩
      · obtain ⟨q, hq, rfl⟩ := h.cap c hc
        exact ⟨q, List.mem_cons_of_mem d hq, hle⟩

theorem exhausts_foldl (ps : List Promise) : (ps.foldl Fit.add ⟨[], [], none⟩).Exhausts :=
  List.foldlRecOn ps Fit.add ⟨nofun, fun _ h => absurd h List.not_mem_nil⟩ fun _ h p _ => h.add p

/-- The tasks that fit on one call and the others, both in order of arrival.  The first task is among
those that fit; no task allows fewer than fit; and with one more of the others on the call, that one or
a task on it would allow fewer. -/
structure BestFit (ps batch deferred : List Promise) : Prop where
  order : batch.Sublist ps
  deferred_order : deferred.Sublist ps
  all : (batch ++ deferred).Perm ps
  nonempty : ps ≠ [] → batch ≠ []
  first : batch.head? = ps.head?
  size : ∀ p ∈ batch, batch.length ≤ p.descriptor.maxBatchSize
  maximal : ∀ p ∈ deferred, ∃ q ∈ p :: batch, q.descriptor.maxBatchSize < (batch ++ [p]).length

/-- **The walk fits as much as the order of arrival allows**, and the cut to the limit of the first task
leaves what the walk took and put off as it is. -/
theorem fitSize_bestFit {ps : List Promise} (hsize : ∀ p ∈ ps, 1 ≤ p.descriptor.maxBatchSize) :
    BestFit ps (fitSize ps).1 (fitSize ps).2 ∧
    (fitSize ps).1 = (ps.foldl Fit.add ⟨[], [], none⟩).taken ∧
    (fitSize ps).2 = (ps.foldl Fit.add ⟨[], [], none⟩).deferred := by
  have hcut := fitSize_eq ps
  refine ⟨?_, congrArg Prod.fst hcut, congrArg Prod.snd hcut⟩
  refine ⟨fitSize_sublist ps, fitSize_deferred_sublist ps, fitSize_perm ps,
    fun hne => fitSize_ne_nil hne hsize, head?_fitSize hsize, fun p hp => length_fitSize_le hp,
    fun p hp => ?_⟩
  rw [hcut] at hp ⊢
  obtain ⟨q, hq, hle⟩ := (exhausts_foldl ps).full p hp
  rw [List.length_append]
  exact ⟨q, hq, Nat.lt_succ_of_le hle⟩

/-- Tasks of one transport with the limits 5, 2, 5 and 1. -/
def sized : List Promise :=
  [Stages.pinging 1 "wire" [] 5, Stages.pinging 2 "wire" [] 2, Stages.pinging 3 "wire" [] 5,
    Stages.pinging 4 "wire" [] 1]

theorem fitSize_bestFit_sized :
    (∀ p ∈ sized, 1 ≤ p.descriptor.maxBatchSize) ∧ BestFit sized (sized.take 2) (sized.drop 2) := by
  have hsize : ∀ p ∈ sized, 1 ≤ p.descriptor.maxBatchSize := by decide
  exact ⟨hsize, (fitSize_bestFit hsize).1⟩

/-! ## One set of headers -/

/-- Do two tasks give some header two values? -/
def Disagree (p q : Promise) : Prop :=
  ∃ name value other, Dict.at? p.descriptor.headers name = some value ∧
    Dict.at? q.descriptor.headers name = some other ∧ value ≠ other

/-- The tasks at some places, in order of arrival. -/
def chosen (places : Nat → Bool) (ps : List Promise) : List Promise :=
  (ps.zipIdx.filter fun e => places e.2).map Prod.fst

theorem chosen_append (places : Nat → Bool) (ps : List Promise) (p : Promise) :
    chosen places (ps ++ [p]) = chosen places ps ++ if places ps.length then [p] else [] := by
  rw [chosen, List.zipIdx_append, List.filter_append, List.map_append, Nat.zero_add, chosen]
  split
  · rename_i h
    simp [h]
  · rename_i h
    simp [h]

theorem chosen_sublist (places : Nat → Bool) (ps : List Promise) : (chosen places ps).Sublist ps := by
  have hsub := (List.filter_sublist (p := fun e => places e.2) (l := ps.zipIdx)).map Prod.fst
  rwa [List.zipIdx_map_fst] at hsub

theorem mem_chosen {places : Nat → Bool} {ps : List Promise} {p : Promise} :
    p ∈ chosen places ps ↔ ∃ i, places i = true ∧ ps[i]? = some p := by
  simp only [chosen, List.mem_map, List.mem_filter, List.mem_zipIdx_iff_getElem?, Prod.exists]
  constructor
  · rintro ⟨q, i, ⟨hq, hi⟩, rfl⟩
    exact ⟨i, hi, hq⟩
  · rintro ⟨i, hi, hp⟩
    exact ⟨p, i, ⟨hp, hi⟩, rfl⟩

theorem mergeHeaders_append (ps : List Promise) (p : Promise) :
    mergeHeaders (ps ++ [p]) = (mergeHeaders ps).add p := by
  rw [mergeHeaders, List.foldl_append]
  rfl

/-- Headers conflict with those kept so far if a task kept so far disagrees. -/
theorem Merge.Agrees.conflicts_iff {m : Merge} (h : m.Agrees) {p : Promise}
    (hp : Dict.Sorted p.descriptor.headers) :
    conflicts m.headers p.descriptor.headers = true ↔ ∃ q ∈ m.kept, Disagree q p := by
  rw [conflicts, List.any_eq_true]
  constructor
  · rintro ⟨⟨name, other⟩, hmem, hne⟩
    obtain ⟨value, hvalue, hne⟩ := (Option.any_eq_true _ _).1 hne
    obtain ⟨q, hq, hqvalue⟩ := (h name value).1 hvalue
    exact ⟨q, hq, name, value, other, hqvalue, Dict.at?_of_mem hp hmem, bne_iff_ne.1 hne⟩
  · rintro ⟨q, hq, name, value, other, hvalue, hother, hne⟩
    refine ⟨(name, other), Dict.mem_of_at? hother, ?_⟩
    rw [(h name value).2 ⟨q, hq, hvalue⟩, Option.any_some]
    exact bne_iff_ne.2 hne

/-- Is the task at this place kept, after those before it? -/
def keepsAt (ps : List Promise) (i : Nat) : Bool :=
  ps[i]?.any fun p => !conflicts (mergeHeaders (ps.take i)).headers p.descriptor.headers

theorem mergeHeaders_take (ps : List Promise) (n : Nat) :
    (mergeHeaders (ps.take n)).kept = chosen (keepsAt ps) (ps.take n) ∧
      (mergeHeaders (ps.take n)).conflicting = chosen (fun i => !keepsAt ps i) (ps.take n) := by
  -- on the number of tasks and not on the list, so that `keepsAt ps` stays the same throughout
  induction n with
  | zero => exact ⟨rfl, rfl⟩
  | succ n ih =>
    rcases Nat.lt_or_ge n ps.length with hn | hn
    · have hlen : (ps.take n).length = n := List.length_take_of_le (Nat.le_of_lt hn)
      have hkeeps : keepsAt ps n =
          !conflicts (mergeHeaders (ps.take n)).headers ps[n].descriptor.headers := by
        rw [keepsAt, List.getElem?_eq_getElem hn, Option.any_some]
      rw [List.take_add_one, List.getElem?_eq_getElem hn, Option.toList_some, mergeHeaders_append,
        chosen_append, chosen_append, hlen, ← ih.1, ← ih.2, hkeeps]
      obtain ⟨hconflict, hadd⟩ | ⟨hconflict, hadd⟩ :=
        (mergeHeaders (ps.take n)).add_cases ps[n] <;> rw [hadd, hconflict]
      · exact ⟨(List.append_nil _).symm, rfl⟩
      · exact ⟨rfl, (List.append_nil _).symm⟩
    · rw [List.take_of_length_le (Nat.le_succ_of_le hn)]
      rwa [List.take_of_length_le hn] at ih

/-- A task is pulled out exactly if one that is kept before it disagrees. -/
theorem keepsAt_eq_false_iff {ps : List Promise}
    (hps : ∀ p ∈ ps, Dict.Sorted p.descriptor.headers) {i : Nat} (hi : i < ps.length) :
    keepsAt ps i = false ↔
      ∃ j, ∃ hj : j < i, keepsAt ps j = true ∧ Disagree ps[j] ps[i] := by
  have hagrees : (mergeHeaders (ps.take i)).Agrees :=
    agrees_mergeHeaders fun p hp => hps p (List.mem_of_mem_take hp)
  rw [keepsAt, List.getElem?_eq_getElem hi, Option.any_some, Bool.not_eq_false',
    hagrees.conflicts_iff (hps _ (List.getElem_mem hi)), (mergeHeaders_take ps i).1]
  constructor
  · rintro ⟨q, hq, hdisagree⟩
    obtain ⟨j, hkeeps, hget⟩ := mem_chosen.1 hq
    rw [List.getElem?_take] at hget
    split at hget
    · rename_i hj
      rw [List.getElem?_eq_getElem (Nat.lt_trans hj hi)] at hget
      exact ⟨j, hj, hkeeps, Option.some.inj hget ▸ hdisagree⟩
    · cases hget
  · rintro ⟨j, hj, hkeeps, hdisagree⟩
    refine ⟨_, mem_chosen.2 ⟨j, hkeeps, ?_⟩, hdisagree⟩
    rw [List.getElem?_take_of_lt hj, List.getElem?_eq_getElem]

theorem sorted_mergeHeaders (ps : List Promise) : Dict.Sorted (mergeHeaders ps).headers := by
  induction ps using List.reverseRecOn with
  | nil => exact .nil
  | append_singleton ps p ih =>
    rw [mergeHeaders_append]
    obtain ⟨-, hadd⟩ | ⟨-, hadd⟩ := (mergeHeaders ps).add_cases p <;> rw [hadd]
    · exact ih
    · exact Dict.sorted_overlay ih _

/-- The tasks that are kept come to the same headers without the others. -/
theorem mergeHeaders_kept (ps : List Promise) :
    mergeHeaders (mergeHeaders ps).kept = ⟨(mergeHeaders ps).kept, (mergeHeaders ps).headers, []⟩ := by
  induction ps using List.reverseRecOn with
  | nil => rfl
  | append_singleton ps p ih =>
    rw [mergeHeaders_append]
    obtain ⟨-, hadd⟩ | ⟨hagree, hadd⟩ := (mergeHeaders ps).add_cases p <;> rw [hadd]
    · exact ih
    · rw [mergeHeaders_append, ih, Merge.add, hagree]
      rfl

/-- The tasks at the chosen `places` are kept, the others are pulled out, and `headers` are those of the
tasks that are kept.  A task is pulled out exactly if one that is kept at a place before it disagrees,
and the headers come to the same if only the tasks that are kept are walked through. -/
structure FirstCome (ps : List Promise) (m : Merge) (places : Nat → Bool) : Prop where
  keeps : m.kept = chosen places ps
  pulls : m.conflicting = chosen (fun i => !places i) ps
  rule : ∀ i (hi : i < ps.length), places i = false ↔
    ∃ j, ∃ hj : j < i, places j = true ∧ Disagree ps[j] ps[i]
  order : m.kept.Sublist ps
  pulled_order : m.conflicting.Sublist ps
  all : (m.kept ++ m.conflicting).Perm ps
  first : m.kept.head? = ps.head?
  unaffected : mergeHeaders m.kept = ⟨m.kept, m.headers, []⟩
  sorted : Dict.Sorted m.headers
  headers : ∀ name value, (name, value) ∈ m.headers ↔
    ∃ p ∈ m.kept, (name, value) ∈ p.descriptor.headers

/-- **Who comes first decides on a header**: a task is pulled out if it disagrees with one that stays. -/
theorem mergeHeaders_firstCome {ps : List Promise}
    (hps : ∀ p ∈ ps, Dict.Sorted p.descriptor.headers) :
    ∃ places, FirstCome ps (mergeHeaders ps) places := by
  have htake := mergeHeaders_take ps ps.length
  rw [List.take_length] at htake
  have hsorted := sorted_mergeHeaders ps
  have hagrees := agrees_mergeHeaders hps
  refine ⟨keepsAt ps, htake.1, htake.2, fun i hi => keepsAt_eq_false_iff hps hi,
    mergeHeaders_sublist ps, htake.2 ▸ chosen_sublist _ ps, mergeHeaders_perm ps,
    head?_mergeHeaders ps, mergeHeaders_kept ps, hsorted, fun name value => ?_⟩
  constructor
  · intro hmem
    obtain ⟨p, hp, hvalue⟩ := (hagrees name value).1 (Dict.at?_of_mem hsorted hmem)
    exact ⟨p, hp, Dict.mem_of_at? hvalue⟩
  · rintro ⟨p, hp, hmem⟩
    have hpsorted := hps p ((mergeHeaders_sublist ps).subset hp)
    exact Dict.mem_of_at? ((hagrees name value).2 ⟨p, hp, Dict.at?_of_mem hpsorted hmem⟩)

/-- Three tasks: the second disagrees with the first, and the third with the second only. -/
def disagreeing : List Promise :=
  [Stages.pinging 1 "wire" [("auth", "a"), ("lang", "en")] 5,
    Stages.pinging 2 "wire" [("auth", "b"), ("trace", "2")] 5,
    Stages.pinging 3 "wire" [("trace", "3")] 5]

theorem mergeHeaders_firstCome_disagreeing :
    (∀ p ∈ disagreeing, Dict.Sorted p.descriptor.headers) ∧
    (mergeHeaders disagreeing).conflicting = (disagreeing.drop 1).take 1 ∧
    ∃ places, FirstCome disagreeing (mergeHeaders disagreeing) places := by
  have hsorted : ∀ p ∈ disagreeing, Dict.Sorted p.descriptor.headers := by decide
  exact ⟨hsorted, rfl, mergeHeaders_firstCome hsorted⟩

end Batch
end RpcFlow
