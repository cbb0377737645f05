import Mathlib.Data.List.Nodup
import RpcFlow.Dict

/-!
# The last entry counts

Maps are made by binding one key after the other, and strategies by laying one table over the other.
Whatever is listed last for a key is what such a walk leaves bound to it.

* `LastSays` — what the last of a list says that says something.
* `getLast?_foldl`, `getLast?_foldl_or` — what a walk leaves behind if each step either says what it
  leaves or keeps what there was.
* `Dict.last?` — the last value listed for a key; `Dict.at?_overlay_eq` is the walk that binds entries.
* `Dict.ext` — maps with the same lookups are the same.
* `Dict.last?_perm`, `Dict.last?_overwritten` — other ways to list the same values last.
-/

set_option autoImplicit false

namespace RpcFlow

/-! ## Walks -/

section Walks

variable {σ τ β : Type} {step : σ → τ → σ}

/-- The last item of a list that says something says `b`. -/
def LastSays (say : τ → Option β) (l : List τ) (b : β) : Prop :=
  ∃ before t after, l = before ++ t :: after ∧ say t = some b ∧ ∀ u ∈ after, say u = none

theorem getLast?_filterMap_eq_some_iff {say : τ → Option β} {l : List τ} {b : β} :
    (l.filterMap say).getLast? = some b ↔ LastSays say l b := by
  rw [List.getLast?_filterMap, List.findSome?_eq_some_iff]
  constructor
  · rintro ⟨after, t, before, hl, ht, hafter⟩
    refine ⟨before.reverse, t, after.reverse, ?_, ht, fun u hu => hafter u (List.mem_reverse.1 hu)⟩
    rw [← List.reverse_reverse l, hl, List.reverse_append, List.reverse_cons, List.append_assoc]
    rfl
  · rintro ⟨before, t, after, hl, ht, hafter⟩
    refine ⟨after.reverse, t, before.reverse, ?_, ht, fun u hu => hafter u (List.mem_reverse.1 hu)⟩
    rw [hl, List.reverse_append, List.reverse_cons, List.append_assoc]
    rfl

theorem getLast?_filterMap_eq_none_iff {say : τ → Option β} {l : List τ} :
    (l.filterMap say).getLast? = none ↔ ∀ t ∈ l, say t = none := by
  rw [List.getLast?_eq_none_iff, List.filterMap_eq_nil_iff]

/-- A walk leaves what the last step that says something says, or else what there was. -/
theorem getLast?_foldl (read : σ → β) (say : τ → Option β) {l : List τ}
    (h : ∀ s, ∀ t ∈ l, read (step s t) = (say t).getD (read s)) (s : σ) :
    read (l.foldl step s) = ((l.filterMap say).getLast?).getD (read s) := by
  induction l generalizing s with
  | nil => rfl
  | cons t l ih =>
    rw [List.foldl_cons, ih fun s t ht => h s t (List.mem_cons_of_mem _ ht),
      h s t List.mem_cons_self]
    cases ht : say t with
    | none => rw [List.filterMap_cons_none ht, Option.getD_none]
    | some b =>
      rw [List.filterMap_cons_some ht, List.getLast?_cons, Option.getD_some, Option.getD_some]

/-- The same where nothing may be left at all. -/
theorem getLast?_foldl_or (read : σ → Option β) (say : τ → Option β) {l : List τ}
    (h : ∀ s, ∀ t ∈ l, read (step s t) = (say t).or (read s)) (s : σ) :
    read (l.foldl step s) = ((l.filterMap say).getLast?).or (read s) := by
  have hor : ∀ o p : Option β, o.or p = (o.map some).getD p := fun o p => by cases o <;> rfl
  have hsays : ∀ s, ∀ t ∈ l, read (step s t) = ((say t).map some).getD (read s) :=
    fun s t ht => (h s t ht).trans (hor _ _)
  rw [getLast?_foldl read _ hsays, hor, ← List.getLast?_map, List.map_filterMap]

end Walks

/-- Forgetting one key of a list of entries does not touch another. -/
theorem lookup_filter_of_ne {α : Type} (entries : List (Nat × α)) {id k : Nat} (h : k ≠ id) :
    (entries.filter fun e => e.1 != id).lookup k = entries.lookup k := by
  induction entries with
  | nil => rfl
  | cons e entries ih =>
    obtain ⟨j, x⟩ := e
    by_cases hj : j = id
    · rw [List.filter_cons_of_neg (by simp [hj]), ih, List.lookup_cons, beq_eq_false_iff_ne.2]
      rw [hj]
      exact h
    · rw [List.filter_cons_of_pos (by simp [hj]), List.lookup_cons, List.lookup_cons, ih]

namespace Dict

variable {α : Type}

/-! ## The last value listed -/

/-- What an entry lists for a key. -/
def listed (key : String) (e : String × α) : Option α := if e.1 = key then some e.2 else none

@[simp] theorem listed_self (key : String) (value : α) : listed key (key, value) = some value :=
  if_pos rfl

theorem listed_of_ne {key k : String} (h : k ≠ key) (value : α) : listed key (k, value) = none :=
  if_neg h

/-- The last value listed for a key. -/
def last? (entries : List (String × α)) (key : String) : Option α :=
  (entries.filterMap (listed key)).getLast?

@[simp] theorem last?_nil (key : String) : last? ([] : List (String × α)) key = none := rfl

theorem last?_append (entries more : List (String × α)) (key : String) :
    last? (entries ++ more) key = (last? more key).or (last? entries key) := by
  rw [last?, List.filterMap_append, List.getLast?_append, last?, last?]

theorem last?_singleton (name key : String) (value : α) :
    last? [(name, value)] key = if key = name then some value else none := by
  rw [last?]
  by_cases h : key = name
  · subst h
    rw [if_pos rfl, List.filterMap_cons_some (listed_self key value)]
    rfl
  · rw [if_neg h, List.filterMap_cons_none (listed_of_ne (Ne.symm h) value)]
    rfl

/-- Entries that list nothing for any key are none. -/
theorem eq_nil_of_last? {entries : List (String × α)} (h : ∀ key, last? entries key = none) :
    entries = [] := by
  cases entries with
  | nil => rfl
  | cons e rest =>
    have hfirst := getLast?_filterMap_eq_none_iff.1 (h e.1) e List.mem_cons_self
    rw [listed, if_pos rfl] at hfirst
    cases hfirst

/-- A map lists for a key what it binds to it. -/
theorem filterMap_listed {d : Dict α} (h : Sorted d) (key : String) :
    d.filterMap (listed key) = (at? d key).toList := by
  induction d with
  | nil => rfl
  | cons e rest ih =>
    obtain ⟨k, v⟩ := e
    obtain ⟨head, tail⟩ := List.pairwise_cons.1 h
    rw [at?]
    split
    · rename_i hk
      subst hk
      have hrest : at? rest k = none := at?_eq_none fun e he heq =>
        String.lt_irrefl k (heq ▸ head e he)
      rw [List.filterMap_cons_some (listed_self k v), ih tail, hrest]
      rfl
    · rename_i hk
      rw [List.filterMap_cons_none (listed_of_ne hk v), ih tail]

/-- A map lists each key once. -/
theorem last?_of_sorted {d : Dict α} (h : Sorted d) (key : String) : last? d key = at? d key := by
  rw [last?, filterMap_listed h]
  cases at? d key <;> rfl

/-- Entries on top of a map hide what it binds to their keys. -/
theorem at?_overlay_eq (base : Dict α) (entries : List (String × α)) (key : String) :
    at? (overlay base entries) key = (last? entries key).or (at? base key) :=
  getLast?_foldl_or (fun d => at? d key) (listed key) (fun d e _ => by
    rw [at?_put, listed]
    by_cases hk : key = e.1
    · rw [if_pos hk, if_pos hk.symm, Option.some_or]
    · rw [if_neg hk, if_neg (Ne.symm hk), Option.none_or]) base

theorem ofEntries_concat (entries : List (String × α)) (key : String) (value : α) :
    ofEntries (entries ++ [(key, value)]) = put (ofEntries entries) key value := List.foldl_concat ..

theorem at?_ofEntries (entries : List (String × α)) (key : String) :
    at? (ofEntries entries) key = last? entries key := by
  rw [ofEntries, at?_overlay_eq, at?_nil, Option.or_none]

/-! ## Keys listed once -/

/-- What is bound to a new key comes on top of the rest. -/
theorem perm_put {d : Dict α} {key : String} (value : α) (h : ∀ e ∈ d, e.1 ≠ key) :
    (put d key value).Perm ((key, value) :: d) := by
  induction d with
  | nil => exact .refl _
  | cons e rest ih =>
    obtain ⟨k, v⟩ := e
    rw [put]
    split
    · exact .refl _
    · rw [if_neg fun heq => h (k, v) List.mem_cons_self heq.symm]
      have hrest := ih fun e he => h e (List.mem_cons_of_mem _ he)
      exact (hrest.cons (k, v)).trans (.swap _ _ _)

/-- Entries with keys of their own all stay. -/
theorem perm_overlay (base : Dict α) {entries : List (String × α)} (h : (names entries).Nodup)
    (hbase : ∀ e ∈ base, e.1 ∉ names entries) : (overlay base entries).Perm (entries ++ base) := by
  induction entries generalizing base with
  | nil => exact .refl _
  | cons e rest ih =>
    obtain ⟨hnew, hrest⟩ := List.nodup_cons.1 h
    have hput : (put base e.1 e.2).Perm (e :: base) :=
      perm_put e.2 fun x hx heq => hbase x hx (heq ▸ List.mem_cons_self)
    have hbase' : ∀ x ∈ put base e.1 e.2, x.1 ∉ names rest := fun x hx => by
      rcases List.mem_cons.1 (hput.subset hx) with rfl | hx
      · exact hnew
      · exact fun hmem => hbase x hx (List.mem_cons_of_mem _ hmem)
    exact (ih _ hrest hbase').trans ((hput.append_left rest).trans List.perm_middle)

theorem perm_ofEntries {entries : List (String × α)} (h : (names entries).Nodup) :
    (ofEntries entries).Perm entries := by
  have hperm := perm_overlay [] h fun _ he => absurd he List.not_mem_nil
  rwa [List.append_nil] at hperm

/-! ## Maps with the same lookups -/

/-- There is only one order that a map can be in. -/
theorem eq_of_perm {d d' : Dict α} (h : Sorted d) (h' : Sorted d') (hperm : d.Perm d') : d = d' :=
  hperm.eq_of_pairwise
    (fun _ _ _ _ hab hba => absurd (String.lt_trans hab hba) (String.lt_irrefl _)) h h'

/-- **A map is determined by what it binds.** -/
theorem ext {d d' : Dict α} (h : Sorted d) (h' : Sorted d') (heq : ∀ key, at? d key = at? d' key) :
    d = d' := by
  have hnodup : ∀ {d : Dict α}, Sorted d → d.Nodup := fun h => (nodup_names h).of_map
  have hmem : ∀ e, e ∈ d ↔ e ∈ d' := fun e =>
    ⟨fun he => mem_of_at? (heq e.1 ▸ at?_of_mem h he),
      fun he => mem_of_at? (heq e.1 ▸ at?_of_mem h' he)⟩
  exact eq_of_perm h h' ((List.perm_ext_iff_of_nodup (hnodup h) (hnodup h')).2 hmem)

/-- The entries of a map make that map. -/
theorem ofEntries_eq_self {d : Dict α} (h : Sorted d) : ofEntries d = d :=
  ext (sorted_ofEntries d) h fun key => by rw [at?_ofEntries, last?_of_sorted h]

/-! ## Entries that list the same values last -/

/-- Where each key is listed once the order makes no difference. -/
theorem last?_perm {entries entries' : List (String × α)} (h : entries.Perm entries')
    (hn : (names entries).Nodup) (key : String) : last? entries key = last? entries' key := by
  have hn' : (names entries').Nodup := (h.map Prod.fst).nodup_iff.1 hn
  have hperm := (perm_ofEntries hn).trans (h.trans (perm_ofEntries hn').symm)
  rw [← at?_ofEntries, ← at?_ofEntries,
    eq_of_perm (sorted_ofEntries entries) (sorted_ofEntries entries') hperm]

/-- A value makes no difference where its key is listed again. -/
theorem last?_overwritten (before : List (String × α)) (name : String) (old : α)
    (between : List (String × α)) (new : α) (after : List (String × α)) (key : String) :
    last? (before ++ (name, old) :: between ++ (name, new) :: after) key =
      last? (before ++ between ++ (name, new) :: after) key := by
  rw [List.append_cons (before ++ (name, old) :: between), List.append_cons (before ++ between),
    List.append_cons before, last?_append, last?_append (before ++ between ++ [(name, new)])]
  congr 1
  simp only [last?_append, last?_singleton]
  by_cases hk : key = name <;> simp [hk]

end Dict
end RpcFlow
