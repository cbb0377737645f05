import RpcFlow.Json.Reader
import RpcFlow.Proofs.Json.Places

/-!
# Values that are read

Every value that is read from a text is sorted, at any depth: the members of an object are put where
they belong one by one, whatever their order in the text.

* `Json.Takes` — whatever a step of the reader takes has a property.
* `Json.sorted_of_read` — a value that is read is sorted.
-/

set_option autoImplicit false

namespace RpcFlow
namespace Json

/-! ## Steps of the reader -/

/-- Whatever a step of the reader takes has a property. -/
def Takes {α : Type} (P : α → Prop) (r : Reads α) : Prop := ∀ v c, r = .ok (v, c) → P v

section

variable {α : Type} {P : α → Prop}

theorem takes_ok {v : α} {c : Cursor} (h : P v) : Takes P (.ok (v, c)) := by
  rintro _ _ ⟨⟩
  exact h

theorem takes_error (e : ReadError) : Takes P (.error e) := nofun

theorem takes_map {β : Type} {Q : β → Prop} {r : Reads β} {f : β → α} (hr : Takes Q r)
    (hf : ∀ v, Q v → P (f v)) : Takes P (r.map fun (v, c) => (f v, c)) := by
  cases r with
  | error e => exact takes_error e
  | ok x => exact takes_ok (hf x.1 (hr x.1 x.2 rfl))

end

/-! ## Numbers -/

/-- Neither an array nor an object. -/
def IsLeaf (v : Json) : Prop := v.members? = none ∧ v.items? = none

theorem IsLeaf.sorted {v : Json} (h : v.IsLeaf) : v.Sorted := sorted_of_leaf h.1 h.2

theorem takes_finishFloat (negative : Bool) (significand : Nat) (exponent : Int) (c : Cursor) :
    Takes IsLeaf (finishFloat negative significand exponent c) := by
  unfold finishFloat
  split
  · exact takes_ok ⟨rfl, rfl⟩
  · exact takes_error _

theorem takes_readExponentDigits (negative : Bool) (significand : Nat) (start : Int) (positive : Bool)
    (exponent : Nat) (cs : List Char) (p : Position) :
    Takes IsLeaf (readExponentDigits negative significand start positive exponent cs p) := by
  induction cs generalizing exponent p with
  | nil => exact takes_finishFloat _ _ _ _
  | cons x rest ih =>
    unfold readExponentDigits
    split
    · exact takes_finishFloat _ _ _ _
    · split
      · split
        · exact takes_error _
        · exact takes_ok ⟨rfl, rfl⟩
      · exact ih _ _

theorem takes_readExponent (negative : Bool) (significand : Nat) (start : Int) (c : Cursor) :
    Takes IsLeaf (readExponent negative significand start c) := by
  unfold readExponent
  simp only
  split
  · exact takes_error _
  · split
    · exact takes_error _
    · exact takes_readExponentDigits _ _ _ _ _ _ _

theorem takes_finishFraction (negative : Bool) (significand : Nat) (exponent : Int) (c : Cursor) :
    Takes IsLeaf (finishFraction negative significand exponent c) := by
  unfold finishFraction
  split
  · exact takes_readExponent _ _ _ _
  · exact takes_readExponent _ _ _ _
  · exact takes_finishFloat _ _ _ _

theorem takes_readFractionDigits (negative found : Bool) (significand : Nat) (exponent : Int)
    (cs : List Char) (p : Position) :
    Takes IsLeaf (readFractionDigits negative found significand exponent cs p) := by
  induction cs generalizing found significand exponent p with
  | nil =>
    unfold readFractionDigits
    split
    · exact takes_finishFraction _ _ _ _
    · exact takes_error _
  | cons x rest ih =>
    unfold readFractionDigits
    split
    · split
      · exact takes_finishFraction _ _ _ _
      · exact ih _ _ _ _
    · split
      · exact takes_finishFraction _ _ _ _
      · exact takes_error _

theorem takes_readLongInteger (negative : Bool) (significand : Nat) (exponent : Int) (cs : List Char)
    (p : Position) : Takes IsLeaf (readLongInteger negative significand exponent cs p) := by
  induction cs generalizing exponent p with
  | nil => exact takes_finishFloat _ _ _ _
  | cons x rest ih =>
    unfold readLongInteger
    split
    · exact takes_readFractionDigits _ _ _ _ _ _
    · split
      · exact takes_readExponent _ _ _ _
      · split
        · exact ih _ _
        · exact takes_finishFloat _ _ _ _

theorem takes_finishInteger (negative : Bool) (significand : Nat) (c : Cursor) :
    Takes IsLeaf (finishInteger negative significand c) := by
  unfold finishInteger
  split
  · exact takes_readFractionDigits _ _ _ _ _ _
  · exact takes_readExponent _ _ _ _
  · exact takes_readExponent _ _ _ _
  · split
    · split
      · exact takes_ok ⟨rfl, rfl⟩
      · exact takes_finishFloat _ _ _ _
    · exact takes_ok ⟨rfl, rfl⟩

theorem takes_readIntegerDigits (negative : Bool) (significand : Nat) (cs : List Char) (p : Position) :
    Takes IsLeaf (readIntegerDigits negative significand cs p) := by
  induction cs generalizing significand p with
  | nil => exact takes_finishInteger _ _ _
  | cons x rest ih =>
    unfold readIntegerDigits
    split
    · exact takes_finishInteger _ _ _
    · split
      · exact takes_readLongInteger _ _ _ _ _
      · exact ih _ _

/-- A number is neither an array nor an object. -/
theorem takes_readNumber (negative : Bool) (c : Cursor) : Takes IsLeaf (readNumber negative c) := by
  unfold readNumber
  split
  · exact takes_error _
  · split
    · exact takes_error _
    · simp only
      split
      · exact takes_error _
      · exact takes_finishInteger _ _ _
    · exact takes_readIntegerDigits _ _ _ _

/-! ## Values -/

/-- What a reader with this much fuel takes is sorted. -/
structure SortedReads (fuel : Nat) : Prop where
  value : ∀ depth c, Takes Sorted (readValue fuel depth c)
  items : ∀ depth first done c, (∀ x ∈ done, x.Sorted) →
    Takes (fun xs => ∀ x ∈ xs, x.Sorted) (readItems fuel depth first done c)
  members : ∀ depth first done c, (Json.obj done).Sorted →
    Takes (fun ms => (Json.obj ms).Sorted) (readMembers fuel depth first done c)

/-- A member is put where it belongs. -/
theorem Sorted.put {members : List (String × Json)} (h : (Json.obj members).Sorted) (name : String)
    {x : Json} (hx : x.Sorted) : (Json.obj (Dict.put members name x)).Sorted := by
  obtain ⟨hmembers, hall⟩ := sorted_obj_iff.1 h
  refine sorted_obj_iff.2 ⟨Dict.sorted_put hmembers name x, fun e he => ?_⟩
  rcases Dict.mem_put he with rfl | he
  · exact hx
  · exact hall e he

section

variable {fuel : Nat}

theorem SortedReads.readValue_succ (ih : SortedReads fuel) (depth : Nat) (c : Cursor) :
    Takes Sorted (readValue (fuel + 1) depth c) := by
  have hword : ∀ (word : List Char) (c : Cursor) (v : Json), v.IsLeaf →
      Takes Sorted ((readKeyword word c).map fun c => (v, c)) := fun word c v hv => by
    cases readKeyword word c with
    | error e => exact takes_error e
    | ok c => exact takes_ok hv.sorted
  have hnumber : ∀ negative c, Takes Sorted (readNumber negative c) := fun negative c v c' hv =>
    (takes_readNumber negative c v c' hv).sorted
  unfold readValue
  simp only
  split
  · exact takes_error _
  · exact hword _ _ _ ⟨rfl, rfl⟩
  · exact hword _ _ _ ⟨rfl, rfl⟩
  · exact hword _ _ _ ⟨rfl, rfl⟩
  · exact hnumber _ _
  · exact takes_map (fun _ _ _ => trivial) fun s _ => sorted_of_leaf rfl rfl
  · split
    · exact takes_error _
    · exact takes_map (ih.items _ _ _ _ fun x hx => absurd hx List.not_mem_nil) fun xs hxs =>
        sorted_arr_iff.2 hxs
  · split
    · exact takes_error _
    · exact takes_map (ih.members _ _ _ _ (sorted_obj_iff.2 ⟨Dict.sorted_nil, nofun⟩)) fun ms hms => hms
  · split
    · exact hnumber _ _
    · exact takes_error _

theorem SortedReads.readItems_succ (ih : SortedReads fuel) (depth : Nat) (first : Bool)
    (done : List Json) (c : Cursor) (hdone : ∀ x ∈ done, x.Sorted) :
    Takes (fun xs => ∀ x ∈ xs, x.Sorted) (readItems (fuel + 1) depth first done c) := by
  unfold readItems
  simp only
  split
  · exact takes_error _
  · exact takes_ok fun x hx => hdone x (List.mem_reverse.1 hx)
  · split
    · exact takes_error _
    · split
      · exact takes_error _
      · rename_i v c hv
        exact ih.items _ _ _ _ (List.forall_mem_cons.2 ⟨ih.value _ _ v c hv, hdone⟩)

theorem SortedReads.readMembers_succ (ih : SortedReads fuel) (depth : Nat) (first : Bool)
    (done : List (String × Json)) (c : Cursor) (hdone : (Json.obj done).Sorted) :
    Takes (fun ms => (Json.obj ms).Sorted) (readMembers (fuel + 1) depth first done c) := by
  unfold readMembers
  simp only
  split
  · exact takes_error _
  · exact takes_ok hdone
  · split
    · exact takes_error _
    · split
      · exact takes_error _
      · split
        · exact takes_error _
        · split
          · exact takes_error _
          · rename_i v c hv
            exact ih.members _ _ _ _ (hdone.put _ (ih.value _ _ v c hv))
        · exact takes_error _

end

theorem sortedReads (fuel : Nat) : SortedReads fuel := by
  induction fuel with
  | zero =>
    exact ⟨fun _ _ => takes_error _, fun _ _ _ _ _ => takes_error _, fun _ _ _ _ _ => takes_error _⟩
  | succ fuel ih => exact ⟨ih.readValue_succ, ih.readItems_succ, ih.readMembers_succ⟩

/-- **A value that is read is sorted.** -/
theorem sorted_of_read {text : String} {v : Json} (h : read text = .ok v) : v.Sorted := by
  unfold read at h
  simp only at h
  split at h
  · cases h
  · rename_i v' c hv
    split at h
    · cases h
      exact (sortedReads _).value _ _ _ _ hv
    · cases h

end Json
end RpcFlow
