import RpcFlow.Proofs.Json.Places

/-!
# Null members

Which members of a value are null.  A null that is an item of an array is no member, and neither is the
value itself.

* `Json.IsNullMember` — a place is that of a null member.
* `Json.nullMembers` — the places of the null members, in the order a value is written.
* `Json.ListsNulls`, `Json.listsNulls_nullMembers` — the list is exact.
-/

set_option autoImplicit false

namespace RpcFlow
namespace Json

/-! ## The null members of a value -/

/-- A member of an object, at any depth, whose value is null. -/
def IsNullMember (v : Json) (p : Place) : Prop :=
  ∃ holder name members, v.at? holder = some (.obj members) ∧ (name, .null) ∈ members ∧
    p = holder ++ [.member name]

mutual

/-- The places of the null members, in the order a value is written. -/
def nullMembers : Json → List Place
  | .obj members => nullsOfMembers members
  | .arr items => nullsOfItems 0 items
  | _ => []

/-- The same for the members of an object. -/
def nullsOfMembers : List (String × Json) → List Place
  | [] => []
  | (name, x) :: rest =>
    (if x.isNull then [[]] else x.nullMembers).map (.member name :: ·) ++ nullsOfMembers rest

/-- The same for the items of an array, from a given number on. -/
def nullsOfItems (index : Nat) : List Json → List Place
  | [] => []
  | x :: rest => x.nullMembers.map (.item index :: ·) ++ nullsOfItems (index + 1) rest

end

/-- What a member contributes, below its name. -/
def nullsUnder (x : Json) : List Place := if x.isNull then [[]] else x.nullMembers

@[simp] theorem isNull_iff {x : Json} : x.isNull = true ↔ x = .null := by
  cases x <;> simp [isNull]

theorem nullsOfMembers_eq (members : List (String × Json)) :
    nullsOfMembers members = members.flatMap fun e => (nullsUnder e.2).map (.member e.1 :: ·) := by
  induction members with
  | nil => simp [nullsOfMembers]
  | cons e rest ih => rw [nullsOfMembers, ih, List.flatMap_cons, nullsUnder]

theorem nullsOfItems_eq (index : Nat) (items : List Json) :
    nullsOfItems index items =
      (items.zipIdx index).flatMap fun e => e.1.nullMembers.map (.item e.2 :: ·) := by
  induction items generalizing index with
  | nil => simp [nullsOfItems]
  | cons x rest ih => rw [nullsOfItems, ih, List.zipIdx_cons, List.flatMap_cons]

theorem nullMembers_obj (members : List (String × Json)) :
    (Json.obj members).nullMembers =
      members.flatMap fun e => (nullsUnder e.2).map (.member e.1 :: ·) := by
  rw [nullMembers, nullsOfMembers_eq]

theorem nullMembers_arr (items : List Json) :
    (Json.arr items).nullMembers =
      items.zipIdx.flatMap fun e => e.1.nullMembers.map (.item e.2 :: ·) := by
  rw [nullMembers, nullsOfItems_eq]

/-! ## The list is exact -/

theorem IsNullMember.ne_nil {v : Json} {p : Place} (h : v.IsNullMember p) : p ≠ [] := by
  obtain ⟨holder, name, members, -, -, rfl⟩ := h
  exact List.append_ne_nil_of_right_ne_nil _ (List.cons_ne_nil _ _)

/-- A null member stands in the object itself or further in. -/
theorem isNullMember_cons_iff {v : Json} {key : Key} {rest : Place} :
    v.IsNullMember (key :: rest) ↔
      (∃ name members, v = .obj members ∧ (name, .null) ∈ members ∧ key = .member name ∧ rest = []) ∨
      ∃ x, v.child? key = some x ∧ x.IsNullMember rest := by
  constructor
  · rintro ⟨_ | ⟨first, holder⟩, name, members, hv, hm, hp⟩
    · obtain ⟨rfl, rfl⟩ := List.cons.inj hp
      exact .inl ⟨name, members, Option.some.inj hv, hm, rfl, rfl⟩
    · obtain ⟨rfl, rfl⟩ := List.cons.inj hp
      obtain ⟨x, hx, hv⟩ := at?_cons_eq_some_iff.1 hv
      exact .inr ⟨x, hx, holder, name, members, hv, hm, rfl⟩
  · rintro (⟨name, members, rfl, hm, rfl, rfl⟩ | ⟨x, hx, holder, name, members, hv, hm, rfl⟩)
    · exact ⟨[], name, members, rfl, hm, rfl⟩
    · exact ⟨key :: holder, name, members, at?_cons_eq_some_iff.2 ⟨x, hx, hv⟩, hm, rfl⟩

theorem mem_nullsUnder {x : Json} {p : Place} :
    p ∈ nullsUnder x ↔ x = .null ∧ p = [] ∨ p ∈ x.nullMembers := by
  unfold nullsUnder
  split
  · rename_i h
    rw [isNull_iff] at h
    simp [h, nullMembers]
  · rename_i h
    rw [isNull_iff] at h
    simp [h]

theorem nil_notMem_nullMembers (v : Json) : [] ∉ v.nullMembers := by
  cases v <;> simp [nullMembers, nullsOfMembers_eq, nullsOfItems_eq]

theorem mem_nullMembers_cons {v : Json} (h : v.Sorted) {key : Key} {rest : Place} :
    key :: rest ∈ v.nullMembers ↔
      (∃ name members, v = .obj members ∧ (name, .null) ∈ members ∧ key = .member name ∧ rest = []) ∨
      ∃ x, v.child? key = some x ∧ rest ∈ x.nullMembers := by
  cases v with
  | obj members =>
    rw [nullMembers_obj, List.mem_flatMap]
    constructor
    · rintro ⟨⟨name, x⟩, he, hp⟩
      obtain ⟨inside, hinside, heq⟩ := List.mem_map.1 hp
      obtain ⟨rfl, rfl⟩ := List.cons.inj heq
      rcases mem_nullsUnder.1 hinside with ⟨rfl, rfl⟩ | hinside
      · exact .inl ⟨name, members, rfl, he, rfl, rfl⟩
      · exact .inr ⟨x, (child?_member h.members).2 he, hinside⟩
    · rintro (⟨name, members', hv, he, rfl, rfl⟩ | ⟨x, hx, hp⟩)
      · obtain rfl := Json.obj.inj hv
        exact ⟨_, he, List.mem_map_of_mem (mem_nullsUnder.2 (.inl ⟨rfl, rfl⟩))⟩
      · cases key with
        | member name =>
          exact ⟨_, (child?_member h.members).1 hx, List.mem_map_of_mem (mem_nullsUnder.2 (.inr hp))⟩
        | item index => cases hx
  | arr items =>
    rw [nullMembers_arr, List.mem_flatMap]
    constructor
    · rintro ⟨⟨x, index⟩, he, hp⟩
      obtain ⟨inside, hinside, heq⟩ := List.mem_map.1 hp
      obtain ⟨rfl, rfl⟩ := List.cons.inj heq
      exact .inr ⟨x, List.mem_zipIdx_iff_getElem?.1 he, hinside⟩
    · rintro (⟨name, members', hv, -⟩ | ⟨x, hx, hp⟩)
      · cases hv
      · cases key with
        | member name => cases hx
        | item index => exact ⟨(x, index), List.mem_zipIdx_iff_getElem?.2 hx, List.mem_map_of_mem hp⟩
  | _ =>
    refine iff_of_false (by simp [nullMembers]) ?_
    rintro (⟨_, _, hv, -⟩ | ⟨x, hx, -⟩)
    · cases hv
    · cases key <;> cases hx

/-- Every null member is listed, and nothing else. -/
theorem mem_nullMembers {v : Json} (h : v.Sorted) {p : Place} :
    p ∈ v.nullMembers ↔ v.IsNullMember p := by
  induction p generalizing v with
  | nil => exact iff_of_false (nil_notMem_nullMembers v) fun hp => hp.ne_nil rfl
  | cons key rest ih =>
    rw [mem_nullMembers_cons h, isNullMember_cons_iff]
    refine or_congr_right (exists_congr fun x => and_congr_right fun hx => ih (h.child hx))

theorem nullsUnder_ordered {x : Json} (h : x.nullMembers.Pairwise Place.Before) :
    (nullsUnder x).Pairwise Place.Before := by
  unfold nullsUnder
  split
  · exact List.pairwise_singleton _ _
  · exact h

theorem pairwise_before_map_cons {key : Key} {places : List Place}
    (h : places.Pairwise Place.Before) : (places.map (key :: ·)).Pairwise Place.Before :=
  List.pairwise_map.2 (h.imp List.Lex.cons)

/-- The list is in order. -/
theorem nullMembers_ordered {v : Json} (h : v.Sorted) : v.nullMembers.Pairwise Place.Before := by
  induction v using induct with
  | arr items ih =>
    rw [nullMembers_arr, List.pairwise_flatMap]
    constructor
    · rintro ⟨x, index⟩ he
      have hx := List.mem_of_getElem? (List.mem_zipIdx_iff_getElem?.1 he)
      exact pairwise_before_map_cons (ih x hx (sorted_arr_iff.1 h x hx))
    · have hindex : items.zipIdx.Pairwise fun a b => a.2 < b.2 := by
        rw [← List.pairwise_map, List.zipIdx_map_snd]
        exact List.pairwise_lt_range'
      refine hindex.imp ?_
      rintro ⟨x, i⟩ ⟨y, j⟩ hij p hp q hq
      obtain ⟨p, -, rfl⟩ := List.mem_map.1 hp
      obtain ⟨q, -, rfl⟩ := List.mem_map.1 hq
      exact .rel (.item hij)
  | obj members ih =>
    rw [nullMembers_obj, List.pairwise_flatMap]
    constructor
    · rintro ⟨name, x⟩ he
      exact pairwise_before_map_cons (nullsUnder_ordered (ih _ he ((sorted_obj_iff.1 h).2 _ he)))
    · refine h.members.imp ?_
      rintro ⟨a, x⟩ ⟨b, y⟩ hab p hp q hq
      obtain ⟨p, -, rfl⟩ := List.mem_map.1 hp
      obtain ⟨q, -, rfl⟩ := List.mem_map.1 hq
      exact .rel (.member (utf8_lt_of_lt hab))
  | _ => exact List.Pairwise.nil

/-- These are the places of the null members, each of them once and in the order a value is written. -/
structure ListsNulls (v : Json) (places : List Place) : Prop where
  mem : ∀ p, p ∈ places ↔ v.IsNullMember p
  nodup : places.Nodup
  ordered : places.Pairwise Place.Before
  /-- The value itself is no member. -/
  not_root : [] ∉ places
  /-- Neither is an item of an array. -/
  not_item : ∀ holder index, holder ++ [.item index] ∉ places

/-- **The list is exact.** -/
theorem listsNulls_nullMembers {v : Json} (h : v.Sorted) : v.ListsNulls v.nullMembers where
  mem _ := mem_nullMembers h
  nodup := (nullMembers_ordered h).imp Place.Before.ne
  ordered := nullMembers_ordered h
  not_root := v.nil_notMem_nullMembers
  not_item holder index hmem := by
    obtain ⟨_, name, _, -, -, heq⟩ := (mem_nullMembers h).1 hmem
    cases (List.append_inj' heq rfl).2

end Json
end RpcFlow
