import RpcFlow.Proofs.Json.Places
import RpcFlow.Proofs.Json.Printing

/-!
# Different values are written differently

The first character of a text says what kind of value is written there, and each kind ends where it can
be seen to end: a string at its quote, an array or object at its bracket, a number before the first
character that is not a digit.  So a text that begins with one value begins with no other.

Doubles are left out: the two zeros are the same number and are written differently.

* `Json.isExact` — there is no double in a value, at any depth; `Json.agrees_iff_eq` says that such
  values agree only if they are the same.
* `Json.separated_append_inj` — the same for whatever is written with commas between.
* `Json.render_append_inj`, `Json.render_inj` — **the text determines the value**.
-/

set_option autoImplicit false

namespace RpcFlow
namespace Json

/-! ## Values without doubles -/

mutual

/-- Is there no double in a value, at any depth? -/
def isExact : Json → Bool
  | .float _ => false
  | .arr items => exactItems items
  | .obj members => exactMembers members
  | .null | .bool _ | .int _ | .str _ => true

def exactItems : List Json → Bool
  | [] => true
  | x :: rest => isExact x && exactItems rest

def exactMembers : List (String × Json) → Bool
  | [] => true
  | (_, x) :: rest => isExact x && exactMembers rest

end

theorem isExact_arr_iff {items : List Json} :
    (Json.arr items).isExact = true ↔ ∀ x ∈ items, x.isExact = true := by
  rw [isExact]
  induction items with
  | nil => simp [exactItems]
  | cons x rest ih => rw [exactItems, Bool.and_eq_true, ih, List.forall_mem_cons]

theorem isExact_obj_iff {members : List (String × Json)} :
    (Json.obj members).isExact = true ↔ ∀ e ∈ members, e.2.isExact = true := by
  rw [isExact]
  induction members with
  | nil => simp [exactMembers]
  | cons e rest ih => rw [exactMembers, Bool.and_eq_true, ih, List.forall_mem_cons]

theorem agreeItems_iff_eq {xs ys : List Json}
    (h : ∀ x ∈ xs, ∀ y, x.agrees y = true ↔ x = y) : agreeItems xs ys = true ↔ xs = ys := by
  induction xs generalizing ys with
  | nil => cases ys <;> simp [agreeItems]
  | cons x xs ih =>
    obtain ⟨hx, hxs⟩ := List.forall_mem_cons.1 h
    cases ys with
    | nil => simp [agreeItems]
    | cons y ys => rw [agreeItems, Bool.and_eq_true, hx y, ih hxs, List.cons.injEq]

theorem agreeMembers_iff_eq {xs ys : List (String × Json)}
    (h : ∀ e ∈ xs, ∀ y, e.2.agrees y = true ↔ e.2 = y) : agreeMembers xs ys = true ↔ xs = ys := by
  induction xs generalizing ys with
  | nil => cases ys <;> simp [agreeMembers]
  | cons e xs ih =>
    obtain ⟨hx, hxs⟩ := List.forall_mem_cons.1 h
    cases ys with
    | nil => simp [agreeMembers]
    | cons f ys =>
      rw [agreeMembers, Bool.and_eq_true, Bool.and_eq_true, beq_iff_eq, hx f.2, ih hxs,
        List.cons.injEq, Prod.ext_iff]

/-- A value without doubles agrees with itself only. -/
theorem agrees_iff_eq {a : Json} (h : a.isExact = true) (b : Json) : a.agrees b = true ↔ a = b := by
  induction a using induct generalizing b with
  | null => cases b <;> simp [agrees]
  | bool x => cases b <;> simp [agrees]
  | int n => cases b <;> simp [agrees]
  | float x => exact absurd h Bool.false_ne_true
  | str s => cases b <;> simp [agrees]
  | arr items ih =>
    have hitems := fun x hx y => ih x hx (isExact_arr_iff.1 h x hx) y
    cases b with
    | arr items' => rw [agrees, agreeItems_iff_eq hitems, arr.injEq]
    | _ => simp [agrees]
  | obj members ih =>
    have hmembers := fun e he y => ih e he (isExact_obj_iff.1 h e he) y
    cases b with
    | obj members' => rw [agrees, agreeMembers_iff_eq hmembers, obj.injEq]
    | _ => simp [agrees]

/-! ## The texts of values -/

/-- Texts one after the other, with commas between. -/
def separated : List (List Char) → List Char
  | [] => []
  | x :: rest => x ++ rest.flatMap (',' :: ·)

/-- The text of a member of an object. -/
def memberChars (e : String × Json) : List Char := quoteChars e.1.toList ++ ':' :: e.2.render.toList

theorem toList_renderItems (items : List Json) :
    (renderItems items).toList = separated (items.map fun x => x.render.toList) := by
  induction items with
  | nil => rfl
  | cons x rest ih =>
    cases rest with
    | nil => simp [renderItems, separated]
    | cons y rest => simp [renderItems, separated, ih]

theorem toList_renderMembers (members : List (String × Json)) :
    (renderMembers members).toList = separated (members.map memberChars) := by
  induction members with
  | nil => rfl
  | cons e rest ih =>
    cases rest with
    | nil => simp [renderMembers, separated, memberChars, quote]
    | cons f rest => simp [renderMembers, separated, memberChars, quote, ih]

theorem toList_render_arr (items : List Json) : (Json.arr items).render.toList =
    '[' :: (separated (items.map fun x => x.render.toList) ++ [']']) := by
  rw [render, String.toList_append, String.toList_append, toList_renderItems]
  rfl

theorem toList_render_obj (members : List (String × Json)) : (Json.obj members).render.toList =
    '\x7b' :: (separated (members.map memberChars) ++ ['\x7d']) := by
  rw [render, String.toList_append, String.toList_append, toList_renderMembers]
  rfl

/-- An integer is written with its digits, after a minus if it is negative. -/
theorem toList_render_int (n : Int) : (Json.int n).render.toList =
    if 0 ≤ n then Nat.toDigits 10 n.toNat else '-' :: Nat.toDigits 10 (-n).toNat := by
  have hrepr : (Json.int n).render = n.repr := by rw [render]; rfl
  rw [hrepr, Int.repr_eq_if]
  split
  · rw [Nat.toList_repr]
  · rw [String.toList_append, Nat.toList_repr]
    rfl

theorem toList_render_str (s : String) : (Json.str s).render.toList = quoteChars s.toList := by
  rw [render, quote, String.toList_ofList]

/-! ## What a text begins with -/

/-- What the text of a value begins with: one character for each kind of value. -/
def opening : Json → Char
  | .null => 'n'
  | .bool _ => 'b'
  | .int _ | .float _ => '0'
  | .str _ => '"'
  | .arr _ => '['
  | .obj _ => '\x7b'

/-- The kind of value that is written where a text has this character. -/
def openingOf (c : Char) : Char :=
  if c.isDigit ∨ c = '-' then '0' else if c = 't' ∨ c = 'f' then 'b' else c

/-- No value begins with the bracket that closes an array. -/
theorem opening_ne_close (v : Json) : v.opening ≠ openingOf ']' := by
  have hclose : openingOf ']' = ']' := rfl
  cases v <;> simp [opening, hclose]

/-- The digits of a number begin with one. -/
theorem exists_toDigits_eq_cons (n : Nat) : ∃ c cs, Nat.toDigits 10 n = c :: cs ∧ c.isDigit = true := by
  cases hd : Nat.toDigits 10 n with
  | nil => exact absurd hd Nat.toDigits_ne_nil
  | cons c cs =>
    have hmem : c ∈ Nat.toDigits 10 n := hd ▸ List.mem_cons_self
    exact ⟨c, cs, rfl, Nat.isDigit_of_mem_toDigits (by decide) (by decide) hmem⟩

theorem exists_opening {v : Json} (h : v.isExact = true) :
    ∃ c cs, v.render.toList = c :: cs ∧ openingOf c = v.opening := by
  cases v with
  | null => exact ⟨_, _, by rw [render]; rfl, by decide⟩
  | bool b => cases b <;> exact ⟨_, _, by rw [render]; rfl, by decide⟩
  | int n =>
    rw [toList_render_int]
    split
    · obtain ⟨c, cs, hc, hdigit⟩ := exists_toDigits_eq_cons n.toNat
      exact ⟨c, cs, hc, if_pos (.inl hdigit)⟩
    · exact ⟨_, _, rfl, rfl⟩
  | float x => exact absurd h Bool.false_ne_true
  | str s => exact ⟨_, _, toList_render_str s, rfl⟩
  | arr items => exact ⟨_, _, toList_render_arr items, rfl⟩
  | obj members => exact ⟨_, _, toList_render_obj members, rfl⟩

/-- Texts that begin alike begin with values of one kind. -/
theorem opening_eq {a b : Json} (ha : a.isExact = true) (hb : b.isExact = true) {u v : List Char}
    (h : a.render.toList ++ u = b.render.toList ++ v) : a.opening = b.opening := by
  obtain ⟨c, cs, hc, hac⟩ := exists_opening ha
  obtain ⟨d, ds, hd, hbd⟩ := exists_opening hb
  rw [hc, hd, List.cons_append, List.cons_append] at h
  rw [← hac, ← hbd, (List.cons.inj h).1]

/-! ## Telling lists apart -/

section Separated

variable {α : Type} {f : α → List Char} {close : Char} {xs ys : List α} {u v : List Char}

/-- What follows an item is a comma or the bracket. -/
theorem ends_flatMap (hclose : close.isDigit = false) :
    Ends (xs.flatMap (fun x => ',' :: f x) ++ close :: u) := by
  cases xs with
  | nil => exact hclose
  | cons x xs => exact (by decide : ','.isDigit = false)

/-- After the first item, too, the items can be told apart. -/
theorem flatMap_append_inj (hcomma : close ≠ ',') (hclose : close.isDigit = false)
    (hinj : ∀ x ∈ xs, ∀ y ∈ ys, ∀ u v, Ends u → Ends v → f x ++ u = f y ++ v → x = y ∧ u = v)
    (h : xs.flatMap (fun x => ',' :: f x) ++ close :: u =
      ys.flatMap (fun y => ',' :: f y) ++ close :: v) : xs = ys ∧ u = v := by
  induction xs generalizing ys with
  | nil =>
    cases ys with
    | nil => exact ⟨rfl, (List.cons.inj h).2⟩
    | cons y ys => exact absurd (List.cons.inj h).1 hcomma
  | cons x xs ih =>
    cases ys with
    | nil => exact absurd (List.cons.inj h).1.symm hcomma
    | cons y ys =>
      rw [List.flatMap_cons, List.flatMap_cons, List.cons_append, List.cons_append, List.append_assoc,
        List.append_assoc] at h
      obtain ⟨hxy, hrest⟩ := hinj x List.mem_cons_self y List.mem_cons_self _ _
        (ends_flatMap hclose) (ends_flatMap hclose) (List.cons.inj h).2
      obtain ⟨hxs, huv⟩ := ih (fun x hx y hy => hinj x (List.mem_cons_of_mem _ hx) y
        (List.mem_cons_of_mem _ hy)) hrest
      exact ⟨by rw [hxy, hxs], huv⟩

/-- If the items can be told apart and none begins with the closing bracket, so can the lists. -/
theorem separated_append_inj (hcomma : close ≠ ',') (hclose : close.isDigit = false)
    (hfirst : ∀ x ∈ xs ++ ys, ∃ c cs, f x = c :: cs ∧ c ≠ close)
    (hinj : ∀ x ∈ xs, ∀ y ∈ ys, ∀ u v, Ends u → Ends v → f x ++ u = f y ++ v → x = y ∧ u = v)
    (h : separated (xs.map f) ++ close :: u = separated (ys.map f) ++ close :: v) :
    xs = ys ∧ u = v := by
  have hflat : ∀ l : List α, (l.map f).flatMap (',' :: ·) = l.flatMap fun x => ',' :: f x :=
    fun l => List.flatMap_map f (',' :: ·) l
  cases xs with
  | nil =>
    cases ys with
    | nil => exact ⟨rfl, (List.cons.inj h).2⟩
    | cons y ys =>
      obtain ⟨c, cs, hc, hne⟩ := hfirst y (List.mem_append_right _ List.mem_cons_self)
      rw [List.map_cons, separated, hc] at h
      exact absurd (List.cons.inj h).1.symm hne
  | cons x xs =>
    cases ys with
    | nil =>
      obtain ⟨c, cs, hc, hne⟩ := hfirst x (List.mem_append_left _ List.mem_cons_self)
      rw [List.map_cons, separated, hc] at h
      exact absurd (List.cons.inj h).1 hne
    | cons y ys =>
      rw [List.map_cons, List.map_cons, separated, separated, hflat, hflat, List.append_assoc,
        List.append_assoc] at h
      obtain ⟨hxy, hrest⟩ := hinj x List.mem_cons_self y List.mem_cons_self _ _
        (ends_flatMap hclose) (ends_flatMap hclose) h
      obtain ⟨hxs, huv⟩ := flatMap_append_inj hcomma hclose (fun x hx y hy =>
        hinj x (List.mem_cons_of_mem _ hx) y (List.mem_cons_of_mem _ hy)) hrest
      exact ⟨by rw [hxy, hxs], huv⟩

end Separated

/-! ## The result -/

/-- A value that no other can be taken for where a text begins with it. -/
def Distinct (a : Json) : Prop := ∀ b, b.isExact = true → ∀ u v, Ends u → Ends v →
  a.render.toList ++ u = b.render.toList ++ v → a = b ∧ u = v

theorem distinct_int (n : Int) : (Json.int n).Distinct := by
  intro b hb u v hu hv h
  have hopening := opening_eq (a := .int n) rfl hb h
  cases b with
  | int m =>
    have hminus : ∀ {k : Nat} {u v : List Char}, Nat.toDigits 10 k ++ u ≠ '-' :: v := by
      intro k u v heq
      obtain ⟨c, cs, hc, hdigit⟩ := exists_toDigits_eq_cons k
      rw [hc] at heq
      rw [(List.cons.inj heq).1] at hdigit
      exact absurd hdigit (by decide)
    rw [toList_render_int, toList_render_int] at h
    split at h <;> split at h
    · obtain ⟨hnm, huv⟩ := digits_append_inj hu hv h
      exact ⟨by congr 1; omega, huv⟩
    · exact absurd h hminus
    · exact absurd h.symm hminus
    · obtain ⟨hnm, huv⟩ := digits_append_inj hu hv (List.cons.inj h).2
      exact ⟨by congr 1; omega, huv⟩
  | float x => exact absurd hb Bool.false_ne_true
  | _ => exact absurd hopening (by simp [opening])

/-- A member ends where its value ends. -/
theorem memberChars_append_inj {e f : String × Json} (he : e.2.Distinct) (hf : f.2.isExact = true)
    {u v : List Char} (hu : Ends u) (hv : Ends v) (h : memberChars e ++ u = memberChars f ++ v) :
    e = f ∧ u = v := by
  rw [memberChars, memberChars, List.append_assoc, List.append_assoc] at h
  obtain ⟨hname, hrest⟩ := quoteChars_append_inj h
  obtain ⟨hvalue, huv⟩ := he f.2 hf u v hu hv (List.cons.inj hrest).2
  exact ⟨Prod.ext (String.toList_inj.1 hname) hvalue, huv⟩

theorem distinct_arr {items : List Json} (h : (Json.arr items).isExact = true)
    (ih : ∀ x ∈ items, x.Distinct) : (Json.arr items).Distinct := by
  intro b hb u v hu hv heq
  have hopening := opening_eq h hb heq
  cases b with
  | arr items' =>
    rw [isExact_arr_iff] at h hb
    have hfirst : ∀ x ∈ items ++ items', ∃ c cs, x.render.toList = c :: cs ∧ c ≠ ']' := by
      intro x hx
      have hexact : x.isExact = true := (List.mem_append.1 hx).elim (h x) (hb x)
      obtain ⟨c, cs, hc, hopen⟩ := exists_opening hexact
      refine ⟨c, cs, hc, ?_⟩
      rintro rfl
      exact opening_ne_close x hopen.symm
    rw [toList_render_arr, toList_render_arr, List.cons_append, List.cons_append, List.append_assoc,
      List.append_assoc] at heq
    obtain ⟨hitems, huv⟩ := separated_append_inj (by decide) (by decide) hfirst
      (fun x hx y hy u v => ih x hx y (hb y hy) u v) (List.cons.inj heq).2
    exact ⟨congrArg _ hitems, huv⟩
  | _ => exact absurd hopening (by simp [opening])

theorem distinct_obj {members : List (String × Json)} (h : (Json.obj members).isExact = true)
    (ih : ∀ e ∈ members, e.2.Distinct) : (Json.obj members).Distinct := by
  intro b hb u v hu hv heq
  have hopening := opening_eq h hb heq
  cases b with
  | obj members' =>
    rw [isExact_obj_iff] at hb
    have hfirst : ∀ e ∈ members ++ members', ∃ c cs, memberChars e = c :: cs ∧ c ≠ '\x7d' :=
      fun e _ => ⟨_, _, rfl, by decide⟩
    rw [toList_render_obj, toList_render_obj, List.cons_append, List.cons_append, List.append_assoc,
      List.append_assoc] at heq
    obtain ⟨hmembers, huv⟩ := separated_append_inj (by decide) (by decide) hfirst
      (fun e he f hf u v => memberChars_append_inj (ih e he) (hb f hf)) (List.cons.inj heq).2
    exact ⟨congrArg _ hmembers, huv⟩
  | _ => exact absurd hopening (by simp [opening])

/-- **A text that begins with a value without doubles begins with no other.** -/
theorem render_append_inj {a : Json} (h : a.isExact = true) : a.Distinct := by
  induction a using induct with
  | null =>
    intro b hb u v _ _ heq
    have hopening := opening_eq h hb heq
    cases b with
    | null => exact ⟨rfl, List.append_cancel_left heq⟩
    | _ => exact absurd hopening (by simp [opening])
  | bool x =>
    intro b hb u v _ _ heq
    have hopening := opening_eq h hb heq
    cases b with
    | bool y =>
      cases x <;> cases y <;> first
        | exact ⟨rfl, List.append_cancel_left heq⟩
        | exact absurd (List.head_eq_of_cons_eq heq) (by decide)
    | _ => exact absurd hopening (by simp [opening])
  | int n => exact distinct_int n
  | float x => exact absurd h Bool.false_ne_true
  | str s =>
    intro b hb u v _ _ heq
    have hopening := opening_eq h hb heq
    cases b with
    | str t =>
      rw [toList_render_str, toList_render_str] at heq
      obtain ⟨hst, huv⟩ := quoteChars_append_inj heq
      exact ⟨congrArg _ (String.toList_inj.1 hst), huv⟩
    | _ => exact absurd hopening (by simp [opening])
  | arr items ih => exact distinct_arr h fun x hx => ih x hx (isExact_arr_iff.1 h x hx)
  | obj members ih => exact distinct_obj h fun e he => ih e he (isExact_obj_iff.1 h e he)

/-- **Values without doubles are written differently if they differ.** -/
theorem render_inj {a b : Json} (ha : a.isExact = true) (hb : b.isExact = true) :
    a.render = b.render ↔ a = b := by
  refine ⟨fun h => ?_, fun h => h ▸ rfl⟩
  exact (render_append_inj ha b hb [] [] trivial trivial (by rw [h])).1

-- Doubles could not be let in: zeros agree and are written differently.
example : (float (.zero false)).agrees (float (.zero true)) = true ∧
    (float (.zero false)).render ≠ (float (.zero true)).render := by decide

end Json
end RpcFlow
