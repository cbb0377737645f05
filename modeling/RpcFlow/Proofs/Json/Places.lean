import Mathlib.Data.List.Nodup
import Mathlib.Tactic.SplitIfs
import RpcFlow.Json.Basic

/-!
# Places in a value

What lies inside a JSON value is reached step by step, each step into a member of an object or an item
of an array.  The steps that lead to a value are its place.

* `Json.at?` — the value at a place.
* `Json.Place.Before` — the order in which a value is written: what is inside something comes after it
  and before what follows it; members follow each other in the order of the bytes of their names, and
  items by number.
* `Json.Sorted` — the members of every object are in order, at any depth.
* `Json.induct` — induction over a value and what lies inside it.
-/

set_option autoImplicit false

namespace RpcFlow

/-! ## Names in the order of their bytes -/

/-- The bytes of a text. -/
def utf8 (s : String) : List UInt8 := s.toUTF8.data.toList

theorem utf8_eq (s : String) : utf8 s = s.toList.flatMap String.utf8EncodeChar := by
  rw [utf8, String.toUTF8_eq_toByteArray, ← String.utf8Encode_toList, List.utf8Encode,
    List.toList_data_toByteArray]

/-- The bytes of a smaller character come first, whatever follows. -/
theorem utf8EncodeChar_append_lt {c d : Char} (h : c < d) (u v : List UInt8) :
    String.utf8EncodeChar c ++ u < String.utf8EncodeChar d ++ v := by
  have hlt : c.val.toNat < d.val.toNat := h
  have hmax : d.val.toNat < 1114112 := by
    rcases d.valid with hd | hd
    · omega
    · exact hd.2
  unfold String.utf8EncodeChar
  generalize c.val.toNat = m at *
  generalize d.val.toNat = n at *
  simp only
  -- one case for each pair of lengths; the first byte tells the lengths apart
  split_ifs
  all_goals
    simp only [List.cons_append, List.nil_append, List.cons_lt_cons_iff, UInt8.lt_iff_toNat_lt,
      ← UInt8.toNat_inj, UInt8.toNat_ofNat']
    simp (disch := omega) only [Nat.mod_eq_of_lt]
    omega

theorem utf8_lt_of_lt {s t : String} (h : s < t) : utf8 s < utf8 t := by
  have hl : s.toList < t.toList := h
  rw [utf8_eq, utf8_eq]
  generalize s.toList = cs at hl
  generalize t.toList = ds at hl
  induction hl with
  | @nil d ds =>
    obtain ⟨b, bs, hb⟩ := List.exists_cons_of_ne_nil (String.utf8EncodeChar_ne_nil (c := d))
    rw [List.flatMap_nil, List.flatMap_cons, hb]
    exact List.nil_lt_cons b _
  | rel h => exact utf8EncodeChar_append_lt h _ _
  | cons _ ih => exact List.append_left_lt ih

/-- **Texts are ordered as their bytes are.** -/
theorem utf8_lt_iff {s t : String} : utf8 s < utf8 t ↔ s < t := by
  refine ⟨fun h => ?_, utf8_lt_of_lt⟩
  by_contra hnot
  rcases Decidable.em (t < s) with hlt | hge
  · exact List.lt_irrefl _ (List.lt_trans h (utf8_lt_of_lt hlt))
  · rw [String.le_antisymm (String.not_lt.1 hge) (String.not_lt.1 hnot)] at h
    exact List.lt_irrefl _ h

namespace Json

/-! ## Places -/

/-- A step into a value. -/
inductive Key where
  | member (name : String)
  | item (index : Nat)
  deriving DecidableEq, Repr

/-- The steps that lead to a value, from the outside in. -/
abbrev Place := List Key

/-- What a step leads to. -/
def child? (v : Json) : Key → Option Json
  | .member name => v.get? name
  | .item index => v.items?.bind fun items => items[index]?

/-- The value at a place. -/
def at? (v : Json) : Place → Option Json
  | [] => some v
  | key :: rest => (v.child? key).bind fun x => x.at? rest

@[simp] theorem child?_item (items : List Json) (index : Nat) :
    (Json.arr items).child? (.item index) = items[index]? := rfl

@[simp] theorem at?_root (v : Json) : v.at? [] = some v := rfl

theorem at?_cons_eq_some_iff {v x : Json} {key : Key} {place : Place} :
    v.at? (key :: place) = some x ↔ ∃ y, v.child? key = some y ∧ y.at? place = some x :=
  Option.bind_eq_some_iff

/-- The order of steps into one value. -/
inductive Key.Before : Key → Key → Prop
  | member {a b : String} : utf8 a < utf8 b → Key.Before (.member a) (.member b)
  | item {i j : Nat} : i < j → Key.Before (.item i) (.item j)

theorem Key.not_before_self (k : Key) : ¬ k.Before k := by
  rintro (h | h)
  · exact List.lt_irrefl _ h
  · exact Nat.lt_irrefl _ h

/-- The order in which a value is written. -/
def Place.Before : Place → Place → Prop := List.Lex Key.Before

theorem Place.Before.ne {p q : Place} (h : p.Before q) : p ≠ q := by
  induction h with
  | nil => exact (List.cons_ne_nil _ _).symm
  | rel hk => exact fun heq => Key.not_before_self _ ((List.cons.inj heq).1 ▸ hk)
  | cons _ ih => exact fun heq => ih (List.cons.inj heq).2

/-! ## Sorted values -/

/-- The members of every object in a value are sorted by name. -/
def Sorted (v : Json) : Prop := ∀ place members, v.at? place = some (.obj members) → Dict.Sorted members

theorem Sorted.members {members : List (String × Json)} (h : (Json.obj members).Sorted) :
    Dict.Sorted members := h [] members rfl

theorem Sorted.child {v x : Json} {key : Key} (h : v.Sorted) (hx : v.child? key = some x) : x.Sorted :=
  fun place members hm => h (key :: place) members (at?_cons_eq_some_iff.2 ⟨x, hx, hm⟩)

theorem sorted_of_children {v : Json} (hv : ∀ members, v = .obj members → Dict.Sorted members)
    (h : ∀ key x, v.child? key = some x → x.Sorted) : v.Sorted := by
  rintro (_ | ⟨key, place⟩) members hm
  · exact hv members (Option.some.inj hm)
  · obtain ⟨x, hx, hm⟩ := at?_cons_eq_some_iff.1 hm
    exact h key x hx place members hm

/-- An entry of a sorted object is what its name leads to. -/
theorem child?_member {members : List (String × Json)} (h : Dict.Sorted members) {name : String}
    {x : Json} : (Json.obj members).child? (.member name) = some x ↔ (name, x) ∈ members :=
  ⟨Dict.mem_of_at?, Dict.at?_of_mem h⟩

/-- What is neither an object nor an array is sorted. -/
theorem sorted_of_leaf {v : Json} (hm : v.members? = none) (hi : v.items? = none) : v.Sorted := by
  have hchild : ∀ key, v.child? key = none := by
    rintro (name | index)
    · cases v <;> first | rfl | cases hm
    · rw [child?, hi, Option.bind_none]
  refine sorted_of_children (fun members hv => ?_) fun key x hx => ?_
  · rw [hv] at hm
    cases hm
  · rw [hchild key] at hx
    cases hx

@[simp] theorem sorted_null : Json.null.Sorted := sorted_of_leaf rfl rfl

theorem sorted_arr_iff {items : List Json} : (Json.arr items).Sorted ↔ ∀ x ∈ items, x.Sorted := by
  constructor
  · intro h x hx
    obtain ⟨index, hindex⟩ := List.mem_iff_getElem?.1 hx
    exact h.child ((child?_item items index).trans hindex)
  · refine fun h => sorted_of_children (fun _ hm => by cases hm) fun key x hx => ?_
    cases key with
    | member name => cases hx
    | item index => exact h x (List.mem_of_getElem? hx)

theorem sorted_obj_iff {members : List (String × Json)} :
    (Json.obj members).Sorted ↔ Dict.Sorted members ∧ ∀ e ∈ members, e.2.Sorted := by
  constructor
  · exact fun h => ⟨h.members, fun e he => h.child ((child?_member h.members).2 he)⟩
  · rintro ⟨hm, h⟩
    refine sorted_of_children (fun _ heq => Json.obj.inj heq ▸ hm) fun key x hx => ?_
    cases key with
    | member name => exact h _ ((child?_member hm).1 hx)
    | item index => cases hx

/-! ## Induction -/

/-- Induction over a value and what lies inside it. -/
@[elab_as_elim]
theorem induct {motive : Json → Prop} (null : motive .null) (bool : ∀ b, motive (.bool b))
    (int : ∀ n, motive (.int n)) (float : ∀ x, motive (.float x)) (str : ∀ s, motive (.str s))
    (arr : ∀ items, (∀ x ∈ items, motive x) → motive (.arr items))
    (obj : ∀ members, (∀ e ∈ members, motive e.2) → motive (.obj members)) (v : Json) : motive v :=
  @Json.rec motive (fun items => ∀ x ∈ items, motive x) (fun members => ∀ e ∈ members, motive e.2)
    (fun e => motive e.2)
    null bool int float str arr obj
    (fun _ h => absurd h List.not_mem_nil)
    (fun _ _ hx hrest => List.forall_mem_cons.2 ⟨hx, hrest⟩)
    (fun _ h => absurd h List.not_mem_nil)
    (fun _ _ he hrest => List.forall_mem_cons.2 ⟨he, hrest⟩)
    (fun _ _ hx => hx) v

end Json
end RpcFlow
