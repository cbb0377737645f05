import Mathlib.Data.List.Lex
import RpcFlow.Proofs.Json.Nulls
import RpcFlow.Proofs.Json.Reading
import RpcFlow.Validator

/-!
# Which null members a validator names

A validator that collects everything names each null member once, in the order a value is written.  One
that wants the first only accepts the same values and begins with the same member, but it does not
always stop there.  Once something is found, no object and no array is entered any more; an object that
is already entered is walked on, up to its next null member.

Values are supposed to be sorted, as every value is that is read from a text (`Json.sorted_of_read`).

* `Json.IsStraggler` — a null member that is named although something before it was found: the first one
  that follows, in an object that holds the found member deeper inside.
* `Validator.collect_all` and `Validator.collect_first` — what the two walks gather.
* `Validator.reports_every_null` and `Validator.reports_first_null` — what the two validators say.
-/

set_option autoImplicit false

namespace RpcFlow
namespace Json

/-! ## Stragglers -/

/-- `q` follows, in one object around `p`, the member that holds `p` deeper inside, and is the first
null member that does. -/
def IsStraggler (v : Json) (p q : Place) : Prop :=
  ∃ around name inside other, inside ≠ [] ∧ p = around ++ .member name :: inside ∧
    q = around ++ [.member other] ∧ utf8 name < utf8 other ∧ v.IsNullMember q ∧
    ∀ between, utf8 name < utf8 between → utf8 between < utf8 other →
      ¬ v.IsNullMember (around ++ [.member between])

/-- The place of the first null among the members. -/
def firstNull (members : List (String × Json)) : List Place :=
  ((members.find? fun e => e.2.isNull).map fun e => [.member e.1]).toList

/-- The place of the first null member after a step into an object. -/
def nextNull : Json → Key → List Place
  | .obj members, .member name => firstNull (members.filter fun e => name < e.1)
  | _, _ => []

/-- The stragglers after a place, from the inside out. -/
def stragglers (v : Json) : Place → List Place
  | [] | [_] => []
  | key :: next :: rest =>
    ((v.child? key).elim [] fun x => x.stragglers (next :: rest)).map (key :: ·) ++ v.nextNull key

/-- The first of these places with its stragglers. -/
def withStragglers (v : Json) (places : List Place) : List Place :=
  places.head?.elim [] fun p => p :: v.stragglers p

theorem firstNull_cons (name : String) (x : Json) (rest : List (String × Json)) :
    firstNull ((name, x) :: rest) = if x.isNull then [[.member name]] else firstNull rest := by
  unfold firstNull
  rw [List.find?_cons]
  cases x.isNull <;> rfl

theorem mem_firstNull {members : List (String × Json)} (h : Dict.Sorted members) {q : Place} :
    q ∈ firstNull members ↔ ∃ other, q = [.member other] ∧ (other, .null) ∈ members ∧
      ∀ between, between < other → (between, .null) ∉ members := by
  induction members with
  | nil => simp [firstNull]
  | cons e rest ih =>
    obtain ⟨name, x⟩ := e
    obtain ⟨hhead, htail⟩ := List.pairwise_cons.1 h
    rw [firstNull_cons]
    split
    · rename_i hx
      rw [isNull_iff] at hx
      subst hx
      rw [List.mem_singleton]
      constructor
      · rintro rfl
        refine ⟨name, rfl, List.mem_cons_self, fun between hlt hmem => ?_⟩
        rcases List.mem_cons.1 hmem with heq | hmem
        · exact String.lt_irrefl name ((Prod.mk.inj heq).1 ▸ hlt)
        · exact String.lt_irrefl name (String.lt_trans (hhead _ hmem) hlt)
      · rintro ⟨other, rfl, hmem, hfirst⟩
        rcases List.mem_cons.1 hmem with heq | hmem
        · rw [(Prod.mk.inj heq).1]
        · exact absurd List.mem_cons_self (hfirst name (hhead _ hmem))
    · rename_i hx
      rw [isNull_iff] at hx
      have hmem : ∀ n, (n, null) ∈ (name, x) :: rest ↔ (n, null) ∈ rest := fun n =>
        ⟨fun hn => (List.mem_cons.1 hn).resolve_left fun heq => hx (Prod.mk.inj heq).2.symm,
          List.mem_cons_of_mem _⟩
      simp only [ih htail, hmem]

theorem isNullMember_member_iff {members : List (String × Json)} {name : String} :
    (obj members).IsNullMember [.member name] ↔ (name, .null) ∈ members := by
  rw [isNullMember_cons_iff]
  constructor
  · rintro (⟨_, _, hv, hmem, hname, -⟩ | ⟨x, -, hx⟩)
    · rwa [obj.inj hv, Key.member.inj hname]
    · exact absurd rfl hx.ne_nil
  · exact fun hmem => .inl ⟨name, members, rfl, hmem, rfl, rfl⟩

theorem isNullMember_cons_of_child {v x : Json} {key : Key} {rest : Place} (hx : v.child? key = some x)
    (hne : rest ≠ []) : v.IsNullMember (key :: rest) ↔ x.IsNullMember rest := by
  rw [isNullMember_cons_iff]
  constructor
  · rintro (⟨_, _, -, -, -, hnil⟩ | ⟨y, hy, hrest⟩)
    · exact absurd hnil hne
    · rw [hx] at hy
      exact Option.some.inj hy ▸ hrest
  · exact fun hrest => .inr ⟨x, hx, hrest⟩

/-- What follows in the object itself. -/
def FollowsHere (v : Json) (key : Key) (q : Place) : Prop :=
  ∃ name other, key = .member name ∧ q = [.member other] ∧ utf8 name < utf8 other ∧
    v.IsNullMember q ∧ ∀ between, utf8 name < utf8 between → utf8 between < utf8 other →
      ¬ v.IsNullMember [.member between]

theorem mem_nextNull {v : Json} (h : v.Sorted) {key : Key} {q : Place} :
    q ∈ v.nextNull key ↔ v.FollowsHere key q := by
  constructor
  · intro hq
    unfold nextNull at hq
    split at hq
    · rename_i members name
      obtain ⟨other, rfl, hmem, hfirst⟩ := (mem_firstNull (List.Pairwise.filter _ h.members)).1 hq
      obtain ⟨hmem, hlt⟩ := List.mem_filter.1 hmem
      refine ⟨name, other, rfl, rfl, utf8_lt_of_lt (of_decide_eq_true hlt),
        isNullMember_member_iff.2 hmem, fun between ha hb hn => ?_⟩
      exact hfirst between (utf8_lt_iff.1 hb)
        (List.mem_filter.2 ⟨isNullMember_member_iff.1 hn, decide_eq_true (utf8_lt_iff.1 ha)⟩)
    · exact absurd hq List.not_mem_nil
  · rintro ⟨name, other, rfl, rfl, hlt, hnull, hfirst⟩
    obtain ⟨_, members, rfl, hmem, hname, -⟩ | ⟨x, -, hx⟩ := isNullMember_cons_iff.1 hnull
    · obtain rfl := Key.member.inj hname
      refine (mem_firstNull (List.Pairwise.filter _ h.members)).2 ⟨other, rfl,
        List.mem_filter.2 ⟨hmem, decide_eq_true (utf8_lt_iff.1 hlt)⟩, fun between hb hm => ?_⟩
      obtain ⟨hm, ha⟩ := List.mem_filter.1 hm
      exact hfirst between (utf8_lt_of_lt (of_decide_eq_true ha)) (utf8_lt_of_lt hb)
        (isNullMember_member_iff.2 hm)
    · exact absurd rfl hx.ne_nil

/-- A straggler follows in the object itself or further in. -/
theorem isStraggler_cons_iff {v : Json} {key : Key} {rest q : Place} :
    v.IsStraggler (key :: rest) q ↔
      (rest ≠ [] ∧ v.FollowsHere key q) ∨
      ∃ x q', v.child? key = some x ∧ q = key :: q' ∧ x.IsStraggler rest q' := by
  constructor
  · rintro ⟨_ | ⟨first, around⟩, name, inside, other, hin, hp, rfl, hlt, hnull, hfirst⟩
    · obtain ⟨rfl, rfl⟩ := List.cons.inj hp
      exact .inl ⟨hin, name, other, rfl, rfl, hlt, hnull, hfirst⟩
    · obtain ⟨rfl, rfl⟩ := List.cons.inj hp
      have hne : ∀ n, around ++ [Key.member n] ≠ [] := fun n =>
        List.append_ne_nil_of_right_ne_nil _ (List.cons_ne_nil _ _)
      obtain ⟨_, _, -, -, -, hnil⟩ | ⟨x, hx, hnull'⟩ := isNullMember_cons_iff.1 hnull
      · exact absurd hnil (hne other)
      · exact .inr ⟨x, _, hx, rfl, around, name, inside, other, hin, rfl, rfl, hlt, hnull',
          fun between ha hb hn => hfirst between ha hb ((isNullMember_cons_of_child hx (hne _)).2 hn)⟩
  · rintro (⟨hin, name, other, rfl, rfl, hlt, hnull, hfirst⟩ | ⟨x, q', hx, rfl, around, name, inside,
      other, hin, rfl, rfl, hlt, hnull, hfirst⟩)
    · exact ⟨[], name, rest, other, hin, rfl, rfl, hlt, hnull, hfirst⟩
    · have hne : ∀ n, around ++ [Key.member n] ≠ [] := fun n =>
        List.append_ne_nil_of_right_ne_nil _ (List.cons_ne_nil _ _)
      exact ⟨key :: around, name, inside, other, hin, rfl, rfl, hlt,
        (isNullMember_cons_of_child hx (hne other)).2 hnull,
        fun between ha hb hn => hfirst between ha hb ((isNullMember_cons_of_child hx (hne _)).1 hn)⟩

theorem not_isStraggler_nil {v : Json} {q : Place} : ¬ v.IsStraggler [] q := by
  rintro ⟨around, name, inside, other, -, hp, -⟩
  exact List.append_ne_nil_of_right_ne_nil around (List.cons_ne_nil _ _) hp.symm

/-- The stragglers are listed, and nothing else. -/
theorem mem_stragglers {v : Json} (h : v.Sorted) {p q : Place} :
    q ∈ v.stragglers p ↔ v.IsStraggler p q := by
  induction p generalizing v q with
  | nil => exact iff_of_false List.not_mem_nil not_isStraggler_nil
  | cons key rest ih =>
    rw [isStraggler_cons_iff]
    cases rest with
    | nil =>
      refine iff_of_false List.not_mem_nil ?_
      rintro (⟨hne, -⟩ | ⟨x, q', -, -, hq⟩)
      · exact hne rfl
      · exact not_isStraggler_nil hq
    | cons next rest =>
      rw [stragglers, List.mem_append, mem_nextNull h, or_comm]
      refine or_congr (by simp) ?_
      cases hx : v.child? key with
      | none => simp
      | some x =>
        rw [Option.elim_some, List.mem_map]
        constructor
        · rintro ⟨q', hq, rfl⟩
          exact ⟨x, q', rfl, rfl, (ih (h.child hx)).1 hq⟩
        · rintro ⟨_, q', heq, rfl, hq⟩
          obtain rfl := Option.some.inj heq
          exact ⟨q', (ih (h.child hx)).2 hq, rfl⟩

/-- What follows in the object itself comes after everything the step leads to. -/
theorem FollowsHere.before {v : Json} {key : Key} {q : Place} (h : v.FollowsHere key q)
    (inside : Place) : Place.Before (key :: inside) q := by
  obtain ⟨name, other, rfl, rfl, hlt, -⟩ := h
  exact .rel (.member hlt)

theorem IsStraggler.before {v : Json} {p q : Place} (h : v.IsStraggler p q) : p.Before q := by
  obtain ⟨around, name, inside, other, -, rfl, rfl, hlt, -⟩ := h
  exact List.Lex.append_left _ (.rel (.member hlt)) around

/-- A first member that does not follow makes no difference. -/
theorem nextNull_of_not_lt {name found : String} (h : ¬ found < name) (x : Json)
    (rest : List (String × Json)) :
    (obj ((name, x) :: rest)).nextNull (.member found) = (obj rest).nextNull (.member found) := by
  have hfilter : ((name, x) :: rest).filter (fun e => found < e.1) =
      rest.filter fun e => found < e.1 :=
    List.filter_cons_of_neg fun hlt => h (of_decide_eq_true hlt)
  rw [nextNull, nextNull, hfilter]

/-- After the first member, the first null of the others is next. -/
theorem nextNull_head {name : String} {x : Json} {rest : List (String × Json)}
    (h : Dict.Sorted ((name, x) :: rest)) :
    (obj ((name, x) :: rest)).nextNull (.member name) = firstNull rest := by
  have hrest : rest.filter (fun e => name < e.1) = rest :=
    List.filter_eq_self.2 fun e he => decide_eq_true ((List.pairwise_cons.1 h).1 e he)
  rw [nextNull_of_not_lt (String.lt_irrefl name), nextNull, hrest]

/-- A first member before the found one makes no difference. -/
theorem stragglers_tail {name found : String} (h : name < found) (x : Json)
    (rest : List (String × Json)) (inside : Place) :
    (obj ((name, x) :: rest)).stragglers (.member found :: inside) =
      (obj rest).stragglers (.member found :: inside) := by
  cases inside with
  | nil => rfl
  | cons next inside =>
    have hchild : (obj ((name, x) :: rest)).child? (.member found) =
        (obj rest).child? (.member found) := if_neg (String.ne_of_lt h)
    rw [stragglers, stragglers, hchild, nextNull_of_not_lt (String.lt_asymm h)]

theorem withStragglers_tail {name : String} {x : Json} {rest : List (String × Json)}
    (h : Dict.Sorted ((name, x) :: rest)) :
    (obj ((name, x) :: rest)).withStragglers (nullsOfMembers rest) =
      (obj rest).withStragglers (nullsOfMembers rest) := by
  cases hp : nullsOfMembers rest with
  | nil => rfl
  | cons p others =>
    have hmem : p ∈ nullsOfMembers rest := hp ▸ List.mem_cons_self
    rw [nullsOfMembers_eq, List.mem_flatMap] at hmem
    obtain ⟨e, he, hin⟩ := hmem
    obtain ⟨inside, -, rfl⟩ := List.mem_map.1 hin
    exact congrArg (_ :: ·) (stragglers_tail ((List.pairwise_cons.1 h).1 e he) x rest inside)

theorem nextNull_ordered (v : Json) (key : Key) : (v.nextNull key).Pairwise Place.Before := by
  unfold nextNull firstNull
  split
  · cases List.find? _ _ <;> simp
  · exact .nil

/-- The stragglers are in order. -/
theorem stragglers_ordered {v : Json} (h : v.Sorted) (p : Place) :
    (v.stragglers p).Pairwise Place.Before := by
  induction p generalizing v with
  | nil => exact .nil
  | cons key rest ih =>
    cases rest with
    | nil => exact .nil
    | cons next rest =>
      rw [stragglers, List.pairwise_append]
      refine ⟨pairwise_before_map_cons ?_, nextNull_ordered v key, fun a ha b hb => ?_⟩
      · cases hx : v.child? key with
        | none => exact .nil
        | some x => exact ih (h.child hx)
      · obtain ⟨a, -, rfl⟩ := List.mem_map.1 ha
        exact ((mem_nextNull h).1 hb).before a

end Json

open Json

namespace Validator

/-! ## Texts of places -/

/-- A step, written after the path so far. -/
def stepText (path : String) : Key → String
  | .member name => memberPath path name
  | .item index => itemPath path index

/-- A place, written after the path so far. -/
def textFrom (path : String) (p : Place) : String := p.foldl stepText path

/-- What is said about null members at these places. -/
def complaint (places : List Place) : CallError :=
  .validation ("null value in required fields: " ++ ", ".intercalate (places.map (textFrom "")))

theorem textFrom_cons (path : String) (key : Key) (rest : Place) :
    textFrom path (key :: rest) = textFrom (stepText path key) rest := rfl

theorem map_textFrom_cons (path : String) (key : Key) (places : List Place) :
    (places.map (key :: ·)).map (textFrom path) = places.map (textFrom (stepText path key)) :=
  List.map_map

theorem validate_of_faults {w : Validator} {v : Json} {places : List Place}
    (h : w.faults v = places.map (textFrom "")) :
    w.validate v = if places = [] then .ok () else .error (complaint places) := by
  unfold validate complaint
  rw [h]
  cases places <;> rfl

/-! ## Everything -/

theorem collectMembers_cons (firstOnly : Bool) (path : String) (found : List String) (name : String)
    (x : Json) (rest : List (String × Json)) :
    collectMembers firstOnly path found ((name, x) :: rest) =
      if x.isNull then
        if firstOnly then found ++ [memberPath path name]
        else collectMembers firstOnly path (found ++ [memberPath path name]) rest
      else collectMembers firstOnly path (collect firstOnly (memberPath path name) found x) rest := by
  cases x <;> simp [collectMembers, isNull]

/-- A walk that collects everything adds the text of each null member. -/
theorem collect_all (v : Json) (path : String) (found : List String) :
    collect false path found v = found ++ v.nullMembers.map (textFrom path) := by
  induction v using induct generalizing path found with
  | arr items ih =>
    rw [collect, nullMembers, Bool.false_and, if_neg Bool.false_ne_true]
    generalize 0 = index
    induction items generalizing index found with
    | nil => simp [collectItems, nullsOfItems]
    | cons x rest ihrest =>
      rw [collectItems, ih x List.mem_cons_self, ihrest (fun y hy => ih y (List.mem_cons_of_mem _ hy)),
        nullsOfItems, List.map_append, map_textFrom_cons, stepText, List.append_assoc]
  | obj members ih =>
    rw [collect, nullMembers, Bool.false_and, if_neg Bool.false_ne_true]
    induction members generalizing found with
    | nil => simp [collectMembers, nullsOfMembers]
    | cons e rest ihrest =>
      obtain ⟨name, x⟩ := e
      have hrest := fun found => ihrest (fun y hy => ih y (List.mem_cons_of_mem _ hy)) found
      rw [collectMembers_cons, nullsOfMembers, List.map_append, map_textFrom_cons, stepText,
        ← List.append_assoc]
      split
      · rw [if_neg Bool.false_ne_true, hrest]
        rfl
      · rw [ih _ List.mem_cons_self, hrest]
  | _ => simp [collect, nullMembers]

theorem faults_all (v : Json) : (rejectNulls false).faults v = v.nullMembers.map (textFrom "") := by
  rw [faults, collect_all, List.nil_append]

/-! ## The first only -/

theorem collect_of_ne_nil {found : List String} (hf : found ≠ []) (path : String) (v : Json) :
    collect true path found v = found := by
  cases v <;> simp [collect, hf]

theorem collectItems_of_ne_nil {found : List String} (hf : found ≠ []) (path : String) (index : Nat)
    (items : List Json) : collectItems true path found index items = found := by
  induction items generalizing index with
  | nil => rw [collectItems]
  | cons x rest ih => rw [collectItems, collect_of_ne_nil hf, ih]

/-- An object that is already entered is walked on to its next null. -/
theorem collectMembers_of_ne_nil {found : List String} (hf : found ≠ []) (path : String)
    (members : List (String × Json)) :
    collectMembers true path found members =
      found ++ (firstNull members).map (textFrom path) := by
  induction members with
  | nil => simp [collectMembers, firstNull]
  | cons e rest ih =>
    obtain ⟨name, x⟩ := e
    rw [collectMembers_cons, firstNull_cons]
    split
    · rfl
    · rw [collect_of_ne_nil hf, ih]

/-- Below a step, the first place and its stragglers; then what follows in the value itself. -/
theorem map_withStragglers_cons {v x : Json} {key : Key} {p : Place} (hx : v.child? key = some x)
    (hp : p ≠ []) (path : String) (others others' : List Place) :
    (v.withStragglers ((key :: p) :: others)).map (textFrom path) =
      (x.withStragglers (p :: others')).map (textFrom (stepText path key)) ++
        (v.nextNull key).map (textFrom path) := by
  obtain ⟨next, inside, rfl⟩ := List.exists_cons_of_ne_nil hp
  simp [withStragglers, stragglers, hx, textFrom_cons, Function.comp_def]

theorem collect_first_members {members : List (String × Json)} (h : Dict.Sorted members)
    (ih : ∀ e ∈ members, ∀ path, collect true path [] e.2 =
      (e.2.withStragglers e.2.nullMembers).map (textFrom path)) (path : String) :
    collectMembers true path [] members =
      ((obj members).withStragglers (nullsOfMembers members)).map (textFrom path) := by
  induction members with
  | nil => rfl
  | cons e rest ihrest =>
    obtain ⟨name, x⟩ := e
    rw [collectMembers_cons, nullsOfMembers]
    by_cases hnull : x.isNull
    · rw [if_pos hnull, if_pos rfl, if_pos hnull]
      rfl
    · rw [if_neg hnull, if_neg hnull, ih _ List.mem_cons_self]
      cases hn : x.nullMembers with
      | nil =>
        rw [List.map_nil, List.nil_append, withStragglers_tail h]
        exact ihrest (List.pairwise_cons.1 h).2 fun e he => ih e (List.mem_cons_of_mem _ he)
      | cons p others =>
        have hp : p ≠ [] := fun hp => x.nil_notMem_nullMembers (by simp [hn, hp])
        have hx : (obj ((name, x) :: rest)).child? (.member name) = some x := if_pos rfl
        rw [collectMembers_of_ne_nil (by simp [withStragglers]), List.map_cons, List.cons_append,
          map_withStragglers_cons hx hp path _ others, nextNull_head h]
        rfl

theorem collect_first_items {all items : List Json} {index : Nat} (hall : all.drop index = items)
    (ih : ∀ x ∈ items, ∀ path, collect true path [] x =
      (x.withStragglers x.nullMembers).map (textFrom path)) (path : String) :
    collectItems true path [] index items =
      ((arr all).withStragglers (nullsOfItems index items)).map (textFrom path) := by
  induction items generalizing index with
  | nil => rfl
  | cons x rest ihrest =>
    have hx : (arr all).child? (.item index) = some x := by
      simpa using congrArg List.head? hall
    have hrest : all.drop (index + 1) = rest := by
      rw [← List.drop_drop, hall, List.drop_one, List.tail_cons]
    rw [collectItems, ih x List.mem_cons_self, nullsOfItems]
    cases hn : x.nullMembers with
    | nil => exact ihrest hrest fun y hy => ih y (List.mem_cons_of_mem _ hy)
    | cons p others =>
      have hp : p ≠ [] := fun hp => x.nil_notMem_nullMembers (by simp [hn, hp])
      rw [collectItems_of_ne_nil (by simp [withStragglers]), List.map_cons, List.cons_append,
        map_withStragglers_cons hx hp path _ others]
      exact (List.append_nil _).symm

/-- A walk that wants the first only adds it with its stragglers. -/
theorem collect_first {v : Json} (h : v.Sorted) (path : String) :
    collect true path [] v = (v.withStragglers v.nullMembers).map (textFrom path) := by
  induction v using induct generalizing path with
  | arr items ih =>
    exact collect_first_items List.drop_zero (fun x hx => ih x hx (sorted_arr_iff.1 h x hx)) path
  | obj members ih =>
    obtain ⟨hmembers, hx⟩ := sorted_obj_iff.1 h
    exact collect_first_members hmembers (fun e he => ih e he (hx e he)) path
  | _ => rfl

theorem faults_first {v : Json} (h : v.Sorted) :
    (rejectNulls true).faults v = (v.withStragglers v.nullMembers).map (textFrom "") :=
  collect_first h ""

/-! ## What is reported -/

/-- **Everything is reported exactly.**  A validator that collects everything names each null member
once, in the order a value is written, and no other null; without null members it accepts. -/
theorem reports_every_null {v : Json} (h : v.Sorted) :
    v.ListsNulls v.nullMembers ∧
    (rejectNulls false).faults v = v.nullMembers.map (textFrom "") ∧
    ((rejectNulls false).validate v = .ok () ↔ ∀ p, ¬ v.IsNullMember p) ∧
    ∀ p, v.IsNullMember p → (rejectNulls false).validate v = .error (complaint v.nullMembers) := by
  have hlists := listsNulls_nullMembers h
  have hvalidate := validate_of_faults (faults_all v)
  simp only [hvalidate, ← hlists.mem]
  refine ⟨hlists, faults_all v, ?_, fun p hp => if_neg (List.ne_nil_of_mem hp)⟩
  rw [← List.eq_nil_iff_forall_not_mem]
  split <;> simp [*]

/-- Nulls in an object, in an object in an array, and one that is an item. -/
def mixedNulls : Json :=
  .obj [("a", .null), ("b", .obj [("c", .null), ("d", .arr [])]),
    ("e", .arr [.obj [("f", .null)], .null])]

theorem mixedNulls_sorted : mixedNulls.Sorted := by
  have hread : read ("\x7b\"e\":[\x7b\"f\":null\x7d,null],\"b\":\x7b\"d\":[],\"c\":null\x7d," ++
      "\"a\":null\x7d") = .ok mixedNulls := by decide +kernel
  exact sorted_of_read hread

theorem reports_every_null_mixed :
    mixedNulls.Sorted ∧ (rejectNulls false).validate mixedNulls =
      .error (.validation "null value in required fields: a, b.c, e[0].f") := by
  obtain ⟨hlists, -, -, herror⟩ := reports_every_null mixedNulls_sorted
  have hfirst : mixedNulls.IsNullMember [.member "a"] := (hlists.mem _).1 (by decide)
  exact ⟨mixedNulls_sorted, herror _ hfirst⟩

/-- **The first is reported, and its stragglers.**  A validator that wants the first null member only
accepts what the other one accepts.  Where the other one names `p` first, it names `p` and then the
stragglers after `p`, in order; it names `p` alone exactly when there are none. -/
theorem reports_first_null {v : Json} (h : v.Sorted) :
    ((rejectNulls true).validate v = .ok () ↔ (rejectNulls false).validate v = .ok ()) ∧
    ∀ p others, v.nullMembers = p :: others →
      (rejectNulls false).validate v = .error (complaint (p :: others)) ∧
      (∃ later, (p :: later).Pairwise Place.Before ∧ (∀ q, q ∈ later ↔ v.IsStraggler p q) ∧
        (rejectNulls true).validate v = .error (complaint (p :: later))) ∧
      ((rejectNulls true).faults v = [textFrom "" p] ↔ ∀ q, ¬ v.IsStraggler p q) := by
  have hfirst := validate_of_faults (faults_first h)
  have hall := validate_of_faults (faults_all v)
  cases hn : v.nullMembers with
  | nil =>
    rw [hn] at hfirst hall
    exact ⟨by rw [hfirst, hall]; rfl, fun p others heq => nomatch heq⟩
  | cons first rest =>
    rw [hn] at hfirst hall
    refine ⟨by rw [hfirst, hall]; simp [withStragglers], ?_⟩
    rintro p others heq
    obtain ⟨rfl, rfl⟩ := List.cons.inj heq
    refine ⟨by rw [hall, if_neg (List.cons_ne_nil _ _)], ⟨v.stragglers first, ?_, ?_, hfirst⟩, ?_⟩
    · exact List.pairwise_cons.2
        ⟨fun q hq => ((mem_stragglers h).1 hq).before, stragglers_ordered h first⟩
    · exact fun q => mem_stragglers h
    · rw [faults_first h, hn]
      simp only [← mem_stragglers h, ← List.eq_nil_iff_forall_not_mem]
      simp [withStragglers]

/-- A null inside a member, and a null after that member. -/
def nestedNull : Json := .obj [("a", .obj [("b", .null)]), ("c", .null)]

theorem nestedNull_sorted : nestedNull.Sorted := by
  simp only [nestedNull, sorted_obj_iff, List.forall_mem_cons, List.not_mem_nil, false_imp_iff,
    forall_const, sorted_null, and_true]
  decide

theorem reports_first_null_nested :
    nestedNull.Sorted ∧ (rejectNulls true).faults nestedNull = ["a.b", "c"] ∧
      ∃ q, nestedNull.IsStraggler [.member "a", .member "b"] q := by
  refine ⟨nestedNull_sorted, rfl, by_contra fun hnone => ?_⟩
  have halone := ((reports_first_null nestedNull_sorted).2 _ _ rfl).2.2.2 (not_exists.1 hnone)
  exact absurd halone (by decide)

/-- The first is not always reported alone. -/
theorem not_reports_first_alone :
    ¬ ∀ v : Json, v.Sorted → ∀ p others, v.nullMembers = p :: others →
      (rejectNulls true).validate v = .error (complaint [p]) := by
  intro h
  have hnested := h nestedNull nestedNull_sorted _ _ rfl
  exact absurd hnested (by decide)

end Validator
end RpcFlow
