/-!
# Finite maps with string keys

A `Dict` is a list of entries in increasing key order, one entry per key.  Headers, queries,
metadata and the members of JSON objects are all kept in this form, so two maps with the same
bindings are the same list and are written the same way.

* `Dict.at?` looks a key up, `Dict.put` binds it, `Dict.without` forgets it.
* `Dict.overlay` binds every entry of a second map on top of a first one.
* `Dict.Sorted` is the invariant; `sorted_put`, `sorted_without` and `sorted_overlay` say that it
  is kept, and `at?_put`, `at?_filter` and `at?_overlay` say what an update does to every lookup.

Keys are compared by code point, which is the order of their UTF-8 bytes.
-/

set_option autoImplicit false

namespace RpcFlow

/-- A finite map with string keys, as its entries in increasing key order. -/
abbrev Dict (α : Type) := List (String × α)

namespace Dict

variable {α : Type}

/-- The value bound to `key`. -/
def at? : Dict α → String → Option α
  | [], _ => none
  | (k, v) :: rest, key => if k = key then some v else at? rest key

/-- Binds `key` to `value`, in place of an earlier binding. -/
def put : Dict α → String → α → Dict α
  | [], key, value => [(key, value)]
  | (k, v) :: rest, key, value =>
    if key < k then (key, value) :: (k, v) :: rest
    else if key = k then (key, value) :: rest
    else (k, v) :: put rest key value

/-- Forgets the binding of `key`. -/
def without (d : Dict α) (key : String) : Dict α :=
  d.filter fun e => e.1 != key

/-- Binds every entry of `top`, in order, on top of `base`. -/
def overlay (base : Dict α) (top : List (String × α)) : Dict α :=
  top.foldl (fun d e => put d e.1 e.2) base

/-- The map that binds each listed key to its last listed value. -/
def ofEntries (entries : List (String × α)) : Dict α :=
  overlay [] entries

/-- The keys, in increasing order. -/
def names (d : Dict α) : List String := d.map Prod.fst

/-- Keys strictly increase along the list. -/
def Sorted (d : Dict α) : Prop := d.Pairwise fun a b => a.1 < b.1

instance (d : Dict α) : Decidable (Sorted d) :=
  inferInstanceAs (Decidable (d.Pairwise fun a b => a.1 < b.1))

/-! ## Lookups after an update -/

@[simp] theorem at?_nil (key : String) : at? ([] : Dict α) key = none := rfl

theorem at?_put_self (d : Dict α) (key : String) (value : α) :
    at? (put d key value) key = some value := by
  induction d with
  | nil => simp [put, at?]
  | cons e rest ih =>
    obtain ⟨k, v⟩ := e
    by_cases h₁ : key < k
    · simp [put, h₁, at?]
    · by_cases h₂ : key = k
      · simp [put, h₂, at?]
      · simp [put, h₁, h₂, at?, ih, Ne.symm h₂]

theorem at?_put_of_ne (d : Dict α) {key other : String} (value : α) (h : other ≠ key) :
    at? (put d key value) other = at? d other := by
  induction d with
  | nil => simp [put, at?, Ne.symm h]
  | cons e rest ih =>
    obtain ⟨k, v⟩ := e
    by_cases h₁ : key < k
    · simp [put, h₁, at?, Ne.symm h]
    · by_cases h₂ : key = k
      · subst h₂
        simp [put, at?, Ne.symm h]
      · simp [put, h₁, h₂, at?, ih]

theorem at?_put (d : Dict α) (key other : String) (value : α) :
    at? (put d key value) other = if other = key then some value else at? d other := by
  by_cases h : other = key
  · subst h; simp [at?_put_self]
  · simp [h, at?_put_of_ne]

theorem at?_without (d : Dict α) (key other : String) :
    at? (without d key) other = if other = key then none else at? d other := by
  induction d with
  | nil => simp [without]
  | cons e rest ih =>
    obtain ⟨k, v⟩ := e
    rw [without] at ih ⊢
    by_cases hk : k = key
    · rw [List.filter_cons_of_neg (by simp [hk]), ih, at?, hk]
      by_cases ho : other = key
      · rw [if_pos ho, if_pos ho]
      · rw [if_neg ho, if_neg ho, if_neg (Ne.symm ho)]
    · rw [List.filter_cons_of_pos (by simp [hk]), at?, at?, ih]
      by_cases ho : k = other
      · rw [if_pos ho, if_pos ho, if_neg (ho ▸ hk)]
      · rw [if_neg ho, if_neg ho]

/-! ## Lookups and entries -/

theorem mem_of_at? {d : Dict α} {key : String} {value : α} (h : at? d key = some value) :
    (key, value) ∈ d := by
  induction d with
  | nil => exact absurd h (by simp)
  | cons e rest ih =>
    obtain ⟨k, v⟩ := e
    rw [at?] at h
    split at h
    · rename_i hk
      cases h
      exact hk ▸ List.mem_cons_self
    · exact List.mem_cons_of_mem _ (ih h)

/-- In a map, each entry is what its key is bound to. -/
theorem at?_of_mem {d : Dict α} (hd : Sorted d) {key : String} {value : α}
    (h : (key, value) ∈ d) : at? d key = some value := by
  induction d with
  | nil => exact absurd h List.not_mem_nil
  | cons e rest ih =>
    obtain ⟨k, v⟩ := e
    obtain ⟨head, tail⟩ := List.pairwise_cons.1 hd
    rw [at?]
    rcases List.mem_cons.1 h with h | h
    · cases h
      rw [if_pos rfl]
    · have hne : k ≠ key := fun hk => String.lt_irrefl key (hk ▸ head _ h)
      rw [if_neg hne]
      exact ih tail h

/-- A key with no entry is bound to nothing. -/
theorem at?_eq_none {d : Dict α} {key : String} (h : ∀ e ∈ d, e.1 ≠ key) : at? d key = none := by
  cases hv : at? d key with
  | none => rfl
  | some value => exact absurd rfl (h _ (mem_of_at? hv))

/-- In a map, what is kept of the entries is kept of the lookups. -/
theorem at?_filter {d : Dict α} (hd : Sorted d) (keep : α → Bool) (key : String) :
    at? (d.filter fun e => keep e.2) key = (at? d key).filter keep := by
  induction d with
  | nil => rfl
  | cons e rest ih =>
    obtain ⟨k, v⟩ := e
    obtain ⟨head, tail⟩ := List.pairwise_cons.1 hd
    rw [at?]
    split
    · rename_i hk
      subst hk
      have hrest : at? (rest.filter fun e => keep e.2) k = none := at?_eq_none fun e he hk =>
        String.lt_irrefl k (hk ▸ head e (List.mem_filter.1 he).1)
      rw [List.filter_cons, Option.filter_some]
      split
      · rw [at?, if_pos rfl]
      · exact hrest
    · rename_i hk
      rw [List.filter_cons]
      split
      · rw [at?, if_neg hk, ih tail]
      · exact ih tail

theorem mem_names_iff {d : Dict α} (hd : Sorted d) {key : String} :
    key ∈ names d ↔ ∃ value, at? d key = some value := by
  rw [names, List.mem_map]
  constructor
  · rintro ⟨⟨k, value⟩, hmem, rfl⟩
    exact ⟨value, at?_of_mem hd hmem⟩
  · rintro ⟨value, hvalue⟩
    exact ⟨(key, value), mem_of_at? hvalue, rfl⟩

theorem nodup_names {d : Dict α} (hd : Sorted d) : (names d).Nodup :=
  List.pairwise_map.2 (hd.imp fun hlt => String.ne_of_lt hlt)

theorem at?_overlay {top : Dict α} (ht : Sorted top) (base : Dict α) (key : String) :
    at? (overlay base top) key = (at? top key).or (at? base key) := by
  induction top generalizing base with
  | nil => rfl
  | cons e rest ih =>
    obtain ⟨k, v⟩ := e
    obtain ⟨head, tail⟩ := List.pairwise_cons.1 ht
    have hrest : at? (overlay base ((k, v) :: rest)) key =
        (at? rest key).or (at? (put base k v) key) := ih tail (put base k v)
    rw [hrest, at?_put, at?]
    by_cases hk : k = key
    · subst hk
      have hnone : at? rest k = none := at?_eq_none fun e he hk =>
        String.lt_irrefl k (hk ▸ head e he)
      rw [hnone, if_pos rfl, if_pos rfl]
      rfl
    · rw [if_neg hk, if_neg (Ne.symm hk)]

/-! ## The order is kept -/

theorem sorted_nil : Sorted ([] : Dict α) := List.Pairwise.nil

/-- A key of `put d key value` is `key` or a key of `d`. -/
theorem mem_put {d : Dict α} {key : String} {value : α} {e : String × α}
    (h : e ∈ put d key value) : e = (key, value) ∨ e ∈ d := by
  induction d with
  | nil => simpa [put] using h
  | cons f rest ih =>
    obtain ⟨k, v⟩ := f
    by_cases h₁ : key < k
    · simpa [put, h₁] using h
    · by_cases h₂ : key = k
      · rw [put, if_neg h₁, if_pos h₂, List.mem_cons] at h
        exact h.imp_right (List.mem_cons_of_mem _)
      · rw [put, if_neg h₁, if_neg h₂, List.mem_cons] at h
        rcases h with h | h
        · right; simp [h]
        · rcases ih h with h | h
          · exact Or.inl h
          · exact Or.inr (List.mem_cons_of_mem _ h)

theorem sorted_put {d : Dict α} (h : Sorted d) (key : String) (value : α) :
    Sorted (put d key value) := by
  induction d with
  | nil => simp [put, Sorted]
  | cons f rest ih =>
    obtain ⟨k, v⟩ := f
    obtain ⟨head, tail⟩ := List.pairwise_cons.1 h
    by_cases h₁ : key < k
    · simp only [put, h₁, if_true]
      refine List.pairwise_cons.2 ⟨?_, h⟩
      intro e he
      rcases List.mem_cons.1 he with he | he
      · simpa [he] using h₁
      · exact String.lt_trans h₁ (head e he)
    · by_cases h₂ : key = k
      · subst h₂
        simp only [put, h₁, if_false, if_true]
        exact List.pairwise_cons.2 ⟨head, tail⟩
      · simp only [put, h₁, h₂, if_false]
        refine List.pairwise_cons.2 ⟨?_, ih tail⟩
        intro e he
        rcases mem_put he with he | he
        · subst he
          refine Decidable.byContradiction fun hk => h₂ ?_
          exact String.le_antisymm (String.not_lt.1 hk) (String.not_lt.1 h₁)
        · exact head e he

theorem sorted_without {d : Dict α} (h : Sorted d) (key : String) : Sorted (without d key) :=
  List.Pairwise.sublist List.filter_sublist h

theorem sorted_overlay {base : Dict α} (h : Sorted base) (top : List (String × α)) :
    Sorted (overlay base top) := by
  induction top generalizing base with
  | nil => exact h
  | cons e rest ih => exact ih (sorted_put h e.1 e.2)

theorem sorted_ofEntries (entries : List (String × α)) : Sorted (ofEntries entries) :=
  sorted_overlay sorted_nil entries

end Dict
end RpcFlow
