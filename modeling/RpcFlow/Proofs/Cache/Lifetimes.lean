import Mathlib.Data.List.Induction
import RpcFlow.TimedCache

/-!
# What a cache remembers

An entry that has expired may stay in a cache for a while, and look-ups and cleanings take some of these
away.  None of it shows: what a look-up finds is what was last stored under the key, for as long as its
lifetime lasts.

* `TimedCache.Sheds` — look-ups and cleanings drop nothing but entries that have expired.
* `TimedCache.LastStored` — the history of a key, told without the cache.
* `TimedCache.Recalls` — the invariant: what the cache holds was last stored, and what was last stored
  is there while it lasts.
* `TimedCache.remembers` — **a cache is a map with lifetimes**.
-/

set_option autoImplicit false

namespace RpcFlow

namespace TimedCache

/-! ## What is dropped -/

/-- Nothing is added, and what is dropped has expired. -/
structure Sheds (now : Moment) (c c' : TimedCache) : Prop where
  sorted : Dict.Sorted c.entries → Dict.Sorted c'.entries
  back : ∀ key x, Dict.at? c'.entries key = some x → Dict.at? c.entries key = some x
  kept : ∀ key x, Dict.at? c.entries key = some x → x.isExpired now = false →
    Dict.at? c'.entries key = some x

theorem Sheds.refl (now : Moment) (c : TimedCache) : Sheds now c c :=
  ⟨id, fun _ _ h => h, fun _ _ h _ => h⟩

/-- A look-up finds nothing, an entry that has expired and is dropped, or one that has not. -/
theorem obtain_cases (c : TimedCache) (now : Moment) (key : String) :
    (Dict.at? c.entries key = none ∧ c.obtain now key = (none, c)) ∨
    (∃ x, Dict.at? c.entries key = some x ∧ x.isExpired now = true ∧
      c.obtain now key = (none, ⟨Dict.without c.entries key⟩)) ∨
    (∃ x, Dict.at? c.entries key = some x ∧ x.isExpired now = false ∧
      c.obtain now key = (some x.value, c)) := by
  rw [obtain]
  cases hx : Dict.at? c.entries key with
  | none => exact .inl ⟨rfl, rfl⟩
  | some x =>
    cases he : x.isExpired now with
    | true => exact .inr (.inl ⟨x, rfl, he, by simp [he]⟩)
    | false => exact .inr (.inr ⟨x, rfl, he, by simp [he]⟩)

theorem obtain_eq_some_iff {c : TimedCache} {now : Moment} {key value : String} :
    (c.obtain now key).1 = some value ↔
      ∃ x, Dict.at? c.entries key = some x ∧ x.isExpired now = false ∧ x.value = value := by
  obtain ⟨hnone, h⟩ | ⟨x, hx, he, h⟩ | ⟨x, hx, he, h⟩ := c.obtain_cases now key <;> rw [h]
  · simp [hnone]
  · simp [hx, he]
  · simp [hx, he]

theorem sheds_obtain (c : TimedCache) (now : Moment) (key : String) :
    Sheds now c (c.obtain now key).2 := by
  obtain ⟨-, h⟩ | ⟨x, hx, he, h⟩ | ⟨x, -, -, h⟩ := c.obtain_cases now key <;> rw [h]
  · exact .refl now c
  · refine ⟨fun hc => Dict.sorted_without hc key, fun k y hy => ?_, fun k y hy hfresh => ?_⟩
    · rw [Dict.at?_without] at hy
      split at hy
      · cases hy
      · exact hy
    · rw [Dict.at?_without, if_neg, hy]
      rintro rfl
      rw [hx] at hy
      cases hy
      rw [he] at hfresh
      cases hfresh
  · exact .refl now c

theorem sheds_clean {c : TimedCache} (hc : Dict.Sorted c.entries) (now : Moment) :
    Sheds now c (c.clean now) := by
  have hat : ∀ key, Dict.at? (c.clean now).entries key =
      (Dict.at? c.entries key).filter fun x => !x.isExpired now := fun key =>
    Dict.at?_filter hc (fun x => !x.isExpired now) key
  refine ⟨List.Pairwise.filter _, fun key x hx => ?_, fun key x hx hfresh => ?_⟩
  · rw [hat, Option.filter_eq_some_iff] at hx
    exact hx.1
  · rw [hat, hx, Option.filter_some, hfresh]
    rfl

/-! ## Histories -/

/-- What is done to a cache, and the time that passes in between. -/
inductive Use
  | store (key value : String) (lifetime : Duration)
  | obtain (key : String)
  | clean
  | clear
  | pass (ms : Nat)
  deriving DecidableEq, Repr

/-- The clock and a cache after one more use. -/
def use (s : Moment × TimedCache) : Use → Moment × TimedCache
  | .store key value lifetime => (s.1, s.2.store s.1 key value lifetime)
  | .obtain key => (s.1, (s.2.obtain s.1 key).2)
  | .clean => (s.1, s.2.clean s.1)
  | .clear => (s.1, .empty)
  | .pass ms => (s.1 + ms, s.2)

/-- The clock and a cache that was empty at `start`, after some uses. -/
def after (start : Moment) (uses : List Use) : Moment × TimedCache := uses.foldl use (start, .empty)

/-- What a look-up finds after some uses. -/
def found (start : Moment) (uses : List Use) (key : String) : Option String :=
  ((after start uses).2.obtain (after start uses).1 key).1

/-- The time that a use takes. -/
def Use.span : Use → Nat
  | .pass ms => ms
  | _ => 0

/-- The clock after some uses. -/
def clock (start : Moment) (uses : List Use) : Moment := uses.foldl (fun now u => now + u.span) start

/-- At the moment `stored`, `value` was stored under the key for `lifetime`, and since then nothing was
stored under the key and the cache was not cleared. -/
def LastStored (start : Moment) (uses : List Use) (key value : String) (stored : Moment)
    (lifetime : Duration) : Prop :=
  ∃ before since, uses = before ++ .store key value lifetime :: since ∧
    stored = clock start before ∧ .clear ∉ since ∧ ∀ v d, .store key v d ∉ since

/-- A lifetime that began at the moment `stored` is not over, or it runs past the end of the clock. -/
def Lasts (stored : Moment) (lifetime : Duration) (now : Moment) : Prop :=
  (Duration.ofMillis now).nanos < (Duration.ofMillis stored).nanos + lifetime.nanos ∨
    (Duration.ofMillis Moment.horizon).nanos < (Duration.ofMillis stored).nanos + lifetime.nanos

theorem isExpired_eq_false_iff {value : String} {stored now : Moment} {lifetime : Duration} :
    (CacheEntry.mk value (stored.after? lifetime)).isExpired now = false ↔
      Lasts stored lifetime now := by
  rw [Lasts, ← Duration.lt_add_ticks_iff, ← Duration.lt_add_ticks_iff, Moment.after?]
  by_cases hends : stored + lifetime.ticks ≤ Moment.horizon
  · rw [if_pos hends, CacheEntry.isExpired, decide_eq_false_iff_not, Nat.not_le]
    exact ⟨.inl, fun h => h.resolve_right (Nat.not_lt.2 hends)⟩
  · rw [if_neg hends, CacheEntry.isExpired]
    exact ⟨fun _ => .inr (Nat.not_le.1 hends), fun _ => rfl⟩

theorem Lasts.of_le {stored now later : Moment} {lifetime : Duration} (h : Lasts stored lifetime later)
    (hle : now ≤ later) : Lasts stored lifetime now := by
  refine h.imp_left fun hlt => Nat.lt_of_le_of_lt ?_ hlt
  exact Nat.mul_le_mul_right _ hle

section

variable {start : Moment} {uses : List Use}

theorem after_append (u : Use) : after start (uses ++ [u]) = use (after start uses) u := by
  rw [after, List.foldl_append]
  rfl

theorem clock_append (u : Use) : clock start (uses ++ [u]) = clock start uses + u.span := by
  rw [clock, List.foldl_append]
  rfl

theorem after_fst : (after start uses).1 = clock start uses := by
  induction uses using List.reverseRecOn with
  | nil => rfl
  | append_singleton uses u ih =>
    rw [after_append, clock_append, ← ih]
    cases u <;> rfl

/-- The last use stores under the key, or it leaves the last store under the key as it was. -/
theorem lastStored_append {u : Use} {key value : String} {stored : Moment} {lifetime : Duration} :
    LastStored start (uses ++ [u]) key value stored lifetime ↔
      (u = .store key value lifetime ∧ stored = clock start uses) ∨
      (u ≠ .clear ∧ (∀ v d, u ≠ .store key v d) ∧
        LastStored start uses key value stored lifetime) := by
  constructor
  · rintro ⟨before, since, huses, hstored, hclear, hstore⟩
    -- the store is the last use itself, or the last use is one of those since
    rcases List.eq_nil_or_concat since with rfl | ⟨since, w, rfl⟩
    · obtain ⟨rfl, hu⟩ := List.append_inj' huses rfl
      exact .inl ⟨List.singleton_inj.1 hu, hstored⟩
    · have hsplit : uses ++ [u] = (before ++ .store key value lifetime :: since) ++ [w] := by
        rw [huses]
        simp
      obtain ⟨hbefore, hu⟩ := List.append_inj' hsplit rfl
      obtain rfl := List.singleton_inj.1 hu
      have hmem : ∀ w, w ∈ since → w ∈ since.concat u := fun w hw => by simp [hw]
      have hlast : u ∈ since.concat u := by simp
      exact .inr ⟨fun h => hclear (h ▸ hlast), fun v d h => hstore v d (h ▸ hlast), before, since,
        hbefore, hstored, fun h => hclear (hmem _ h), fun v d h => hstore v d (hmem _ h)⟩
  · rintro (⟨rfl, hstored⟩ | ⟨hclear, hstore, before, since, rfl, hstored, hclears, hstores⟩)
    · exact ⟨uses, [], rfl, hstored, List.not_mem_nil, fun _ _ => List.not_mem_nil⟩
    · refine ⟨before, since ++ [u], by simp, hstored, fun h => ?_, fun v d h => ?_⟩
      · rcases List.mem_append.1 h with h | h
        · exact hclears h
        · exact hclear (List.mem_singleton.1 h).symm
      · rcases List.mem_append.1 h with h | h
        · exact hstores v d h
        · exact hstore v d (List.mem_singleton.1 h).symm

/-! ## The cache against its history -/

/-- The cache is in order, holds nothing but what was last stored, and holds that while it lasts. -/
structure Recalls (start : Moment) (uses : List Use) (c : TimedCache) : Prop where
  sorted : Dict.Sorted c.entries
  stored : ∀ key x, Dict.at? c.entries key = some x →
    ∃ stored lifetime, LastStored start uses key x.value stored lifetime ∧
      x.expires = stored.after? lifetime
  lasting : ∀ key value stored lifetime, LastStored start uses key value stored lifetime →
    Lasts stored lifetime (clock start uses) →
    Dict.at? c.entries key = some ⟨value, stored.after? lifetime⟩

/-- Dropping what has expired, or waiting, changes nothing that the history could tell. -/
theorem Recalls.shed {c c' : TimedCache} (h : Recalls start uses c) {u : Use} (hclear : u ≠ .clear)
    (hstore : ∀ key v d, u ≠ .store key v d) (hc : Sheds (clock start (uses ++ [u])) c c') :
    Recalls start (uses ++ [u]) c' := by
  refine ⟨hc.sorted h.sorted, fun key x hx => ?_, fun key value stored lifetime hlast hlasts => ?_⟩
  · obtain ⟨stored, lifetime, hlast, hexpires⟩ := h.stored key x (hc.back key x hx)
    exact ⟨stored, lifetime, lastStored_append.2 (.inr ⟨hclear, hstore key, hlast⟩), hexpires⟩
  · have hbefore : clock start uses ≤ clock start (uses ++ [u]) := by
      rw [clock_append]
      exact Nat.le_add_right _ _
    have hlast : LastStored start uses key value stored lifetime :=
      (lastStored_append.1 hlast).elim (fun h => absurd h.1 (hstore key value lifetime)) fun h => h.2.2
    exact hc.kept key _ (h.lasting key value stored lifetime hlast (hlasts.of_le hbefore))
      (isExpired_eq_false_iff.2 hlasts)

theorem Recalls.use {s : Moment × TimedCache} (h : Recalls start uses s.2)
    (hs : s.1 = clock start uses) (u : Use) : Recalls start (uses ++ [u]) (use s u).2 := by
  obtain ⟨now, c⟩ := s
  obtain rfl : now = clock start uses := hs
  have hsame : u.span = 0 → clock start (uses ++ [u]) = clock start uses := fun hspan => by
    rw [clock_append, hspan, Nat.add_zero]
  cases u with
  | store key value lifetime =>
    refine ⟨Dict.sorted_put h.sorted _ _, fun k x hx => ?_, fun k v stored d hlast hlasts => ?_⟩
    · by_cases hk : k = key
      · subst hk
        obtain rfl := Option.some.inj ((Dict.at?_put_self _ _ _).symm.trans hx)
        exact ⟨_, lifetime, lastStored_append.2 (.inl ⟨rfl, rfl⟩), rfl⟩
      · obtain ⟨stored, d, hlast, hexpires⟩ :=
          h.stored k x ((Dict.at?_put_of_ne _ _ hk).symm.trans hx)
        refine ⟨stored, d, lastStored_append.2 (.inr ⟨nofun, fun v d heq => ?_, hlast⟩), hexpires⟩
        cases heq
        exact hk rfl
    · rcases lastStored_append.1 hlast with ⟨heq, rfl⟩ | ⟨-, hother, hlast⟩
      · cases heq
        exact Dict.at?_put_self _ _ _
      · have hk : k ≠ key := fun hk => hother value lifetime (hk ▸ rfl)
        rw [hsame rfl] at hlasts
        exact (Dict.at?_put_of_ne _ _ hk).trans (h.lasting k v stored d hlast hlasts)
  | obtain key =>
    refine h.shed nofun nofun ?_
    rw [hsame rfl]
    exact sheds_obtain c _ key
  | clean =>
    refine h.shed nofun nofun ?_
    rw [hsame rfl]
    exact sheds_clean h.sorted _
  | clear =>
    refine ⟨.nil, fun k x hx => ?_, fun k v stored d hlast _ => ?_⟩
    · cases hx
    · rcases lastStored_append.1 hlast with ⟨heq, -⟩ | ⟨hclear, -⟩
      · cases heq
      · exact absurd rfl hclear
  | pass ms => exact h.shed nofun nofun (.refl _ c)

theorem recalls (start : Moment) (uses : List Use) : Recalls start uses (after start uses).2 := by
  induction uses using List.reverseRecOn with
  | nil => exact ⟨.nil, nofun, fun _ _ _ _ ⟨before, since, h, _⟩ => by simp at h⟩
  | append_singleton uses u ih =>
    rw [after_append]
    exact ih.use after_fst u

/-- What is found was last stored, and its lifetime lasts. -/
theorem found_eq_some_iff {key value : String} :
    found start uses key = some value ↔ ∃ stored lifetime,
      LastStored start uses key value stored lifetime ∧ Lasts stored lifetime (clock start uses) := by
  have hrecalls := recalls start uses
  rw [found, obtain_eq_some_iff, after_fst]
  constructor
  · rintro ⟨⟨_, expires⟩, hx, hfresh, rfl⟩
    obtain ⟨stored, lifetime, hlast, rfl⟩ := hrecalls.stored key _ hx
    exact ⟨stored, lifetime, hlast, isExpired_eq_false_iff.1 hfresh⟩
  · rintro ⟨stored, lifetime, hlast, hlasts⟩
    exact ⟨_, hrecalls.lasting key value stored lifetime hlast hlasts,
      isExpired_eq_false_iff.2 hlasts, rfl⟩

/-! ## Uses that do not count -/

/-- Does a use leave a mark in the history?  A look-up and a cleaning do not. -/
def Use.counts : Use → Bool
  | .obtain _ | .clean => false
  | _ => true

theorem Use.of_not_counts {u : Use} (h : u.counts = false) :
    u.span = 0 ∧ u ≠ .clear ∧ ∀ key v d, u ≠ .store key v d := by
  cases u with
  | obtain key => exact ⟨rfl, nofun, nofun⟩
  | clean => exact ⟨rfl, nofun, nofun⟩
  | _ => cases h

theorem filter_counts_append (uses : List Use) (u : Use) :
    (uses ++ [u]).filter Use.counts =
      if u.counts then uses.filter Use.counts ++ [u] else uses.filter Use.counts := by
  rw [List.filter_append, List.filter_cons, List.filter_nil]
  split
  · rfl
  · exact List.append_nil _

theorem clock_filter_counts : clock start (uses.filter Use.counts) = clock start uses := by
  induction uses using List.reverseRecOn with
  | nil => rfl
  | append_singleton uses u ih =>
    rw [filter_counts_append, clock_append]
    split
    · rw [clock_append, ih]
    · rename_i hu
      rw [ih, (Use.of_not_counts (Bool.not_eq_true _ ▸ hu)).1, Nat.add_zero]

theorem lastStored_filter_counts {key value : String} {stored : Moment} {lifetime : Duration} :
    LastStored start (uses.filter Use.counts) key value stored lifetime ↔
      LastStored start uses key value stored lifetime := by
  induction uses using List.reverseRecOn with
  | nil => rfl
  | append_singleton uses u ih =>
    rw [filter_counts_append, lastStored_append]
    split
    · rw [lastStored_append, clock_filter_counts, ih]
    · rename_i hu
      obtain ⟨-, hclear, hstore⟩ := Use.of_not_counts (Bool.not_eq_true _ ▸ hu)
      rw [ih]
      exact ⟨fun h => .inr ⟨hclear, hstore key, h⟩, fun h =>
        h.elim (fun h => absurd h.1 (hstore key value lifetime)) fun h => h.2.2⟩

/-- Look-ups and cleanings before a look-up do not change what it finds. -/
theorem found_filter_counts (key : String) :
    found start (uses.filter Use.counts) key = found start uses key := by
  ext value
  simp only [found_eq_some_iff, lastStored_filter_counts, clock_filter_counts]

/-! ## After a cleaning -/

/-- What a cleaning leaves has not expired, so it would be found. -/
theorem isSome_found_clean {key : String} :
    (found start (uses ++ [.clean]) key).isSome ↔
      key ∈ Dict.names (after start (uses ++ [.clean])).2.entries := by
  have hsorted := (recalls start (uses ++ [.clean])).sorted
  rw [Dict.mem_names_iff hsorted, Option.isSome_iff_exists, found]
  constructor
  · rintro ⟨value, hvalue⟩
    obtain ⟨x, hx, -⟩ := obtain_eq_some_iff.1 hvalue
    exact ⟨x, hx⟩
  · rintro ⟨x, hx⟩
    refine ⟨x.value, obtain_eq_some_iff.2 ⟨x, hx, ?_, rfl⟩⟩
    rw [after_append] at hx ⊢
    have hleft := (List.mem_filter.1 (Dict.mem_of_at? hx)).2
    exact (Bool.not_eq_true' _).mp hleft

end

/-- **A cache is a map with lifetimes.**  A look-up finds what was last stored under the key since the
cache was last cleared if its lifetime lasts, and nothing otherwise; it finds the same without the
look-ups and cleanings before it; and after a cleaning the size is the number of keys under which
something would be found. -/
theorem remembers (start : Moment) (uses : List Use) :
    (∀ key value, found start uses key = some value ↔ ∃ stored lifetime,
      LastStored start uses key value stored lifetime ∧ Lasts stored lifetime (clock start uses)) ∧
    (∀ key, found start (uses.filter Use.counts) key = found start uses key) ∧
    ∃ keys : List String, keys.Nodup ∧
      (∀ key, key ∈ keys ↔ (found start (uses ++ [.clean]) key).isSome) ∧
      (after start (uses ++ [.clean])).2.size = keys.length := by
  have hsorted := (recalls start (uses ++ [.clean])).sorted
  exact ⟨fun _ _ => found_eq_some_iff, found_filter_counts, _, Dict.nodup_names hsorted,
    fun _ => isSome_found_clean.symm, (List.length_map ..).symm⟩

/-- An entry is there until the last moment of its lifetime, which a later store may bring forward. -/
example :
    let stored : List Use := [.store "key" "old" (.ofMillis 100), .pass 50]
    found 0 (stored ++ [.pass 49]) "key" = some "old" ∧ found 0 (stored ++ [.pass 50]) "key" = none ∧
      found 0 (stored ++ [.store "key" "new" (.ofMillis 10), .pass 10]) "key" = none ∧
      found 0 (stored ++ [.store "key" "new" .longest, .pass 1000000]) "key" = some "new" := by
  decide +kernel

end TimedCache
end RpcFlow
