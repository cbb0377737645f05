import Mathlib.Data.List.Induction
import Mathlib.Data.List.Nodup
import RpcFlow.Engine.Batch
import RpcFlow.Proofs.Dict.LastEntries

/-!
# Every request finds its own entry

The entries of an answer may come in any order.  Looking an id up finds the last entry that bears it, and
taking one entry out leaves the others to be found; so if the entries bear different ids, each request
finds its own.

* `Batch.mem_entriesById` — an entry bears the id under which it is kept.
* `Batch.lookup_entriesById` — what is found under an id.
* `Batch.lookup_takeEntry` — what is left when one request has found its entry.
* `Batch.lookup_of_only` — the only entry with an id is found.
* `Batch.lookup_of_perm` — answers with different ids are found in whatever order they came.
-/

set_option autoImplicit false

namespace RpcFlow
namespace Batch

/-- An entry bears the id under which it is kept. -/
theorem mem_entriesById {answer : List Json} {x : Nat × Json} (h : x ∈ entriesById answer) :
    x.2 ∈ answer ∧ entryId? x.2 = some x.1 := by
  induction answer using List.reverseRecOn with
  | nil => exact absurd h List.not_mem_nil
  | append_singleton answer y ih =>
    rw [entriesById, List.foldl_append, ← entriesById, List.foldl_cons, List.foldl_nil] at h
    have hrest : x ∈ entriesById answer → x.2 ∈ answer ++ [y] ∧ entryId? x.2 = some x.1 :=
      fun hx => ⟨List.mem_append_left _ (ih hx).1, (ih hx).2⟩
    split at h
    · rename_i id hid
      rcases List.mem_cons.1 h with rfl | hx
      · exact ⟨List.mem_append_right _ List.mem_cons_self, hid⟩
      · exact hrest (List.mem_filter.1 hx).1
    · exact hrest h

theorem takeEntry_of_lookup {entries : Entries} {id : Nat} {x : Json} (h : entries.lookup id = some x) :
    takeEntry entries id = (some x, (takeEntry entries id).2) := Prod.ext h rfl

/-- Taking out the entry of one request leaves those of the others. -/
theorem lookup_takeEntry {entries : Entries} {p : Promise} {ps : List Promise}
    {found : Promise → Option Json}
    (hids : ((p :: ps).map fun q => q.descriptor.request.id).Nodup)
    (h : ∀ q ∈ p :: ps, entries.lookup q.descriptor.request.id = found q) :
    ∀ q ∈ ps, (takeEntry entries p.descriptor.request.id).2.lookup q.descriptor.request.id =
      found q := by
  rw [List.map_cons, List.nodup_cons] at hids
  intro q hq
  have hne : q.descriptor.request.id ≠ p.descriptor.request.id := fun heq =>
    hids.1 (List.mem_map.2 ⟨q, hq, heq⟩)
  rw [takeEntry, lookup_filter_of_ne entries hne]
  exact h q (List.mem_cons_of_mem p hq)

theorem lookup_bindEntry (entries : Entries) (id k : Nat) (entry : Json) :
    (bindEntry entries id entry).lookup k = if k = id then some entry else entries.lookup k := by
  rw [bindEntry, List.lookup_cons]
  by_cases h : k = id
  · rw [if_pos h, beq_iff_eq.2 h]
  · rw [if_neg h, beq_eq_false_iff_ne.2 h]
    exact lookup_filter_of_ne entries h

/-- Under an id stands the last entry that bears it. -/
theorem lookup_entriesById (answer : List Json) (k : Nat) :
    (entriesById answer).lookup k = answer.reverse.find? fun x => entryId? x == some k := by
  induction answer using List.reverseRecOn with
  | nil => rfl
  | append_singleton answer x ih =>
    rw [entriesById, List.foldl_append, ← entriesById, List.foldl_cons, List.foldl_nil,
      List.reverse_append, List.reverse_singleton, List.singleton_append, List.find?_cons]
    cases hx : entryId? x with
    | none => exact ih
    | some id =>
      simp only [lookup_bindEntry]
      by_cases h : k = id
      · rw [if_pos h, h, beq_self_eq_true]
      · rw [if_neg h, beq_eq_false_iff_ne.2 fun hid => h (Option.some.inj hid).symm]
        exact ih

/-- The only entry that bears an id is found. -/
theorem lookup_of_only {answer : List Json} {x : Json} {k : Nat} (hx : x ∈ answer)
    (hid : entryId? x = some k) (honly : ∀ y ∈ answer, entryId? y = some k → y = x) :
    (entriesById answer).lookup k = some x := by
  rw [lookup_entriesById]
  cases hf : answer.reverse.find? fun y => entryId? y == some k with
  | none =>
    rw [List.find?_eq_none] at hf
    exact absurd (beq_iff_eq.2 hid) (hf x (List.mem_reverse.2 hx))
  | some y =>
    have hy := List.find?_some hf
    rw [honly y (List.mem_reverse.1 (List.mem_of_find?_eq_some hf)) (beq_iff_eq.1 hy)]

/-- Answers that bear different ids are found under them, in whatever order they came. -/
theorem lookup_of_perm {α : Type} {reply : α → Json} {id : α → Nat} {l : List α} {answer : List Json}
    (hperm : answer.Perm (l.map reply)) (hids : (l.map id).Nodup)
    (hnamed : ∀ x ∈ l, entryId? (reply x) = some (id x)) {x : α} (hx : x ∈ l) :
    (entriesById answer).lookup (id x) = some (reply x) := by
  refine lookup_of_only (hperm.mem_iff.2 (List.mem_map_of_mem hx)) (hnamed x hx) fun y hy hid => ?_
  obtain ⟨z, hz, rfl⟩ := List.mem_map.1 (hperm.mem_iff.1 hy)
  rw [hnamed z hz] at hid
  rw [List.inj_on_of_nodup_map hids hz hx (Option.some.inj hid)]

end Batch
end RpcFlow
