import RpcFlow.Proofs.Dict.LastEntries
import RpcFlow.Request.Basic

/-!
# How requests are given their parameters

A fresh request is given parameters call by call: named ones, or one value as the whole.  A call may
fail, and then the request is what it was.  The calls that succeed are either all of the first kind or
one of the second, so what was accepted is never lost: not by a later call that fails, and not by one
that succeeds.

* `Request.Edit` — the calls; `Request.run` is what they make of a request, `Request.accepted` those of
  them that succeed.
* `Request.named`, `Request.entire` — the requests that can come about; `Request.Made` says from which
  calls.
* `Request.Binds` — the parameters of a request are named, and bind names as a rule says.
* `Request.keeps_accepted` — **parameters are what the accepted calls say**.
-/

set_option autoImplicit false

namespace RpcFlow
namespace Request

/-- A call that gives a request parameters. -/
inductive Edit where
  | add (name : String) (value : Json)
  | whole (value : Json)

/-- What a call answers. -/
def apply (r : Request) : Edit → Except BuildError Request
  | .add name value => r.addParameter name value
  | .whole value => r.setWhole value

/-- The request after a call; a call that fails leaves it as it is. -/
def edit (r : Request) (x : Edit) : Request :=
  match r.apply x with
  | .ok r' => r'
  | .error _ => r

/-- The request after calls one after the other. -/
def run (r : Request) (calls : List Edit) : Request := calls.foldl edit r

/-- The calls that succeed. -/
def accepted (r : Request) : List Edit → List Edit
  | [] => []
  | x :: rest =>
    match r.apply x with
    | .ok r' => x :: r'.accepted rest
    | .error _ => r.accepted rest

/-- The calls that add these parameters. -/
def adds (entries : List (String × Json)) : List Edit := entries.map fun e => .add e.1 e.2

theorem adds_concat (entries : List (String × Json)) (name : String) (value : Json) :
    adds (entries ++ [(name, value)]) = adds entries ++ [.add name value] := List.map_append

theorem adds_inj {entries entries' : List (String × Json)} (h : adds entries = adds entries') :
    entries = entries' := by
  refine List.map_injective_iff.2 (fun a b hab => ?_) h
  exact Prod.ext (Edit.add.inj hab).1 (Edit.add.inj hab).2

/-- What a name is bound to in the parameters. -/
def param? (r : Request) (name : String) : Option Json := r.params.bind fun params => params.get? name

variable {id : Nat} {method : String} {r r' : Request} {x : Edit} {calls : List Edit}

theorem edit_of_ok (h : r.apply x = .ok r') : r.edit x = r' := by rw [edit, h]

theorem edit_of_error {e : BuildError} (h : r.apply x = .error e) : r.edit x = r := by rw [edit, h]

theorem run_append (r : Request) (calls more : List Edit) :
    r.run (calls ++ more) = (r.run calls).run more := List.foldl_append

theorem accepted_cons_of_ok (h : r.apply x = .ok r') :
    r.accepted (x :: calls) = x :: r'.accepted calls := by rw [accepted, h]

theorem accepted_cons_of_error {e : BuildError} (h : r.apply x = .error e) :
    r.accepted (x :: calls) = r.accepted calls := by rw [accepted, h]

theorem accepted_append (r : Request) (calls more : List Edit) :
    r.accepted (calls ++ more) = r.accepted calls ++ (r.run calls).accepted more := by
  induction calls generalizing r with
  | nil => rfl
  | cons x rest ih =>
    cases hx : r.apply x with
    | ok r' =>
      have hrun : r.run (x :: rest) = r'.run rest := congrArg (·.run rest) (edit_of_ok hx)
      rw [List.cons_append, accepted_cons_of_ok hx, accepted_cons_of_ok hx, ih, hrun, List.cons_append]
    | error e =>
      have hrun : r.run (x :: rest) = r.run rest := congrArg (·.run rest) (edit_of_error hx)
      rw [List.cons_append, accepted_cons_of_error hx, accepted_cons_of_error hx, ih, hrun]

/-- The calls that fail make no difference, neither to the request nor to the other calls. -/
theorem run_accepted (r : Request) (calls : List Edit) :
    r.run (r.accepted calls) = r.run calls ∧ r.accepted (r.accepted calls) = r.accepted calls := by
  induction calls generalizing r with
  | nil => exact ⟨rfl, rfl⟩
  | cons x rest ih =>
    cases hx : r.apply x with
    | ok r' =>
      have hrun : ∀ l, r.run (x :: l) = r'.run l := fun l => congrArg (·.run l) (edit_of_ok hx)
      rw [accepted_cons_of_ok hx, hrun, hrun, accepted_cons_of_ok hx, (ih r').1, (ih r').2]
      exact ⟨rfl, rfl⟩
    | error e =>
      have hrun : r.run (x :: rest) = r.run rest := congrArg (·.run rest) (edit_of_error hx)
      rw [accepted_cons_of_error hx, hrun]
      exact ih r

/-! ## The requests that can come about -/

/-- The request with these named parameters, given in this order; without any it has none. -/
def named (id : Nat) (method : String) (entries : List (String × Json)) : Request :=
  ⟨id, method, if entries.isEmpty then none else some (.obj (Dict.ofEntries entries)), false⟩

/-- The request whose parameters were given as a whole. -/
def entire (id : Nat) (method : String) (value : Json) : Request := ⟨id, method, some value, true⟩

theorem named_of_ne {entries : List (String × Json)} (h : entries ≠ []) :
    named id method entries = ⟨id, method, some (.obj (Dict.ofEntries entries)), false⟩ := by
  rw [named, List.isEmpty_eq_false_iff.2 h, if_neg Bool.false_ne_true]

theorem param?_named (entries : List (String × Json)) (name : String) :
    (named id method entries).param? name = Dict.last? entries name := by
  by_cases h : entries = []
  · rw [h]
    rfl
  · rw [param?, named_of_ne h, Option.bind_some, Json.get?, Dict.at?_ofEntries]

/-- A named parameter joins those there are. -/
theorem addParameter_named (entries : List (String × Json)) (name : String) (value : Json) :
    (named id method entries).addParameter name value =
      .ok (named id method (entries ++ [(name, value)])) := by
  have hgetD : (named id method entries).params.getD (.obj []) = .obj (Dict.ofEntries entries) := by
    by_cases h : entries = []
    · rw [h]
      rfl
    · rw [named_of_ne h, Option.getD_some]
  rw [addParameter, hgetD, bindIn, ← Dict.ofEntries_concat,
    named_of_ne (List.concat_ne_nil (name, value) entries)]
  rfl

theorem setWhole_bare (value : Json) :
    (bare id method).setWhole value = .ok (entire id method value) := rfl

theorem setWhole_named {entries : List (String × Json)} (h : entries ≠ []) (value : Json) :
    (named id method entries).setWhole value = .error .paramsAlreadySet := by
  rw [setWhole, named_of_ne h, Option.isSome_some, if_pos rfl]

/-- Named parameters join those there are. -/
theorem addParameters_named (entries more : List (String × Json)) :
    (named id method entries).addParameters more = .ok (named id method (entries ++ more)) := by
  induction more generalizing entries with
  | nil => rw [List.append_nil]; rfl
  | cons e rest ih =>
    have hcons : (named id method entries).addParameters (e :: rest) =
        (named id method entries).addParameter e.1 e.2 >>= fun r => r.addParameters rest := rfl
    rw [hcons, addParameter_named]
    exact (ih (entries ++ [e])).trans (by rw [List.append_assoc, List.singleton_append])

/-! ## What names are bound to -/

variable {s : Request} {rule rule' : String → Option Json}

/-- The parameters are named, and a name is bound to what `rule` says.  If it is said of no name, there
are no parameters at all. -/
structure Binds (rule : String → Option Json) (r : Request) : Prop where
  absent : r.params = none ↔ ∀ name, rule name = none
  present : ∀ params, r.params = some params → ∃ members, params = .obj members ∧ Dict.Sorted members ∧
    ∀ name, Dict.at? members name = rule name

theorem params_named_eq_none_iff {entries : List (String × Json)} :
    (named id method entries).params = none ↔ entries = [] := by
  refine ⟨fun h => by_contra fun hne => ?_, fun h => h ▸ rfl⟩
  rw [named_of_ne hne] at h
  cases h

theorem binds_named (id : Nat) (method : String) (entries : List (String × Json)) :
    Binds (Dict.last? entries) (named id method entries) := by
  refine { absent := params_named_eq_none_iff.trans ⟨fun h name => h ▸ rfl, Dict.eq_nil_of_last?⟩,
           present := fun params hp => ?_ }
  have hne : entries ≠ [] := fun h => by
    rw [params_named_eq_none_iff.2 h] at hp
    cases hp
  rw [named_of_ne hne] at hp
  exact ⟨_, (Option.some.inj hp).symm, Dict.sorted_ofEntries entries, Dict.at?_ofEntries entries⟩

theorem Binds.congr (hr : r.Binds rule) (h : ∀ name, rule name = rule' name) : r.Binds rule' :=
  funext h ▸ hr

/-- Requests that bind the same names to the same values have the same parameters. -/
theorem Binds.params_eq (hr : r.Binds rule) (hs : s.Binds rule') (h : ∀ name, rule name = rule' name) :
    r.params = s.params := by
  have hnone : r.params = none ↔ s.params = none := by
    rw [hr.absent, hs.absent]
    exact forall_congr' fun name => by rw [h]
  cases hp : r.params with
  | none => exact (hnone.1 hp).symm
  | some p =>
    cases hq : s.params with
    | none => exact absurd (hnone.2 hq) (by rw [hp]; exact Option.some_ne_none p)
    | some q =>
      obtain ⟨members, rfl, hsorted, hat⟩ := hr.present p hp
      obtain ⟨members', rfl, hsorted', hat'⟩ := hs.present q hq
      rw [Dict.ext hsorted hsorted' fun name => by rw [hat, hat', h]]

/-! ## The calls that succeed -/

/-- The request that comes of calls that all succeed. -/
inductive Made (id : Nat) (method : String) : List Edit → Request → Prop
  | named (entries : List (String × Json)) :
    Made id method (adds entries) (named id method entries)
  | entire (value : Json) : Made id method [.whole value] (entire id method value)

/-- If only named parameters were taken, the request is the one with these. -/
theorem Made.eq_named {entries : List (String × Json)}
    (h : Made id method (adds entries) r) : r = .named id method entries := by
  generalize hdone : adds entries = done at h
  cases h with
  | named entries' => rw [adds_inj hdone]
  | entire value => cases entries <;> cases hdone

/-- A call that succeeds is one more of them. -/
theorem Made.apply {done : List Edit} (h : Made id method done r) (hx : r.apply x = .ok r') :
    Made id method (done ++ [x]) r' := by
  cases h with
  | named entries =>
    cases x with
    | add name value =>
      rw [Request.apply, addParameter_named] at hx
      cases hx
      rw [← adds_concat]
      exact .named _
    | whole value =>
      by_cases hnil : entries = []
      · subst hnil
        cases hx
        exact .entire value
      · rw [Request.apply, setWhole_named hnil] at hx
        cases hx
  | entire value => cases x <;> cases hx

theorem Made.run {done : List Edit} (h : Made id method done r) (calls : List Edit) :
    Made id method (done ++ r.accepted calls) (r.run calls) := by
  induction calls generalizing r done with
  | nil => rwa [accepted, List.append_nil]
  | cons x rest ih =>
    cases hx : r.apply x with
    | ok r' =>
      have hrun : r.run (x :: rest) = r'.run rest := congrArg (·.run rest) (edit_of_ok hx)
      rw [accepted_cons_of_ok hx, hrun, List.append_cons]
      exact ih (h.apply hx)
    | error e =>
      have hrun : r.run (x :: rest) = r.run rest := congrArg (·.run rest) (edit_of_error hx)
      rw [accepted_cons_of_error hx, hrun]
      exact ih h

theorem made_run (id : Nat) (method : String) (calls : List Edit) :
    Made id method ((bare id method).accepted calls) ((bare id method).run calls) :=
  Made.run (.named []) calls

/-! ## The result -/

/-- What a request holds that was fresh before the calls in `done`, which all succeeded. -/
inductive Holds (done : List Edit) (r : Request) : Prop
  /-- Nothing was taken, and a whole still would be. -/
  | nothing : done = [] → r.params = none →
    (∀ value, ∃ r', r.setWhole value = .ok r' ∧ r'.params = some value) → Holds done r
  /-- Named parameters were taken: each name is bound to its last value, and to a whole it is too late. -/
  | named (entries : List (String × Json)) (members : Dict Json) : entries ≠ [] →
    done = adds entries → r.params = some (.obj members) →
    Dict.Sorted members → (∀ name, Dict.at? members name = Dict.last? entries name) →
    (∀ value, r.setWhole value = .error .paramsAlreadySet) → Holds done r
  /-- A whole was taken, before anything else; now every call fails. -/
  | whole (value : Json) : done = [.whole value] → r.params = some value →
    (∀ name value, r.addParameter name value = .error .bodyAlreadySet) →
    (∀ value, r.setWhole value = .error .paramsAlreadySet) → Holds done r

theorem Made.holds {done : List Edit} (h : Made id method done r) : Holds done r := by
  cases h with
  | named entries =>
    by_cases hnil : entries = []
    · subst hnil
      exact .nothing rfl rfl fun value => ⟨_, setWhole_bare value, rfl⟩
    · exact .named entries (Dict.ofEntries entries) hnil rfl (by rw [named_of_ne hnil])
        (Dict.sorted_ofEntries entries) (Dict.at?_ofEntries entries) (setWhole_named hnil)
  | entire value => exact .whole value rfl rfl (fun _ _ => rfl) fun _ => rfl

theorem Made.alike {done : List Edit} (h : Made id method done r) : r.id = id ∧ r.method = method := by
  cases h <;> exact ⟨rfl, rfl⟩

/-- Unless there is a whole, a named parameter is taken, and it binds its name and no other. -/
theorem Made.takes {done : List Edit} (h : Made id method done r)
    (hdone : ∀ value, done ≠ [.whole value]) (name : String) (value : Json) :
    ∃ r', r.addParameter name value = .ok r' ∧
      ∀ other, r'.param? other = if other = name then some value else r.param? other := by
  cases h with
  | named entries =>
    refine ⟨_, addParameter_named entries name value, fun other => ?_⟩
    rw [param?_named, param?_named, Dict.last?_append, Dict.last?_singleton]
    split <;> rfl
  | entire value => exact absurd rfl (hdone value)

/-- What calls have made of a fresh request, those in `done` being the ones that succeeded. -/
structure Keeps (id : Nat) (method : String) (calls done : List Edit) (r : Request) : Prop where
  sameId : r.id = id
  sameMethod : r.method = method
  holds : Holds done r
  /-- As long as there is no whole, a named parameter is taken; its name is then bound to it, and no
  other name is touched. -/
  takes : (∀ value, done ≠ [.whole value]) → ∀ name value, ∃ r', r.addParameter name value = .ok r' ∧
    ∀ other, r'.param? other = if other = name then some value else r.param? other
  /-- Without the calls that fail all comes to the same. -/
  replays : (bare id method).run done = r ∧ (bare id method).accepted done = done
  /-- A call that fails leaves the request as it was, and the later calls answer as they would have
  without it. -/
  failed : ∀ before x after e, calls = before ++ x :: after →
    ((bare id method).run before).apply x = .error e →
      (bare id method).run (before ++ [x]) = (bare id method).run before ∧
        (bare id method).run (before ++ after) = r ∧
        (bare id method).accepted (before ++ after) = done

/-- **No parameter is lost**: what calls make of a fresh request is what those say that succeeded. -/
theorem keeps_accepted (id : Nat) (method : String) (calls : List Edit) :
    Keeps id method calls ((bare id method).accepted calls) ((bare id method).run calls) := by
  have hmade := made_run id method calls
  refine { sameId := hmade.alike.1, sameMethod := hmade.alike.2, holds := hmade.holds, takes := hmade.takes,
           replays := run_accepted _ calls, failed := ?_ }
  rintro before x after e rfl hx
  have hrun : ∀ l, ((bare id method).run before).run (x :: l) = ((bare id method).run before).run l :=
    fun l => congrArg (·.run l) (edit_of_error hx)
  rw [run_append, run_append, run_append, accepted_append, accepted_append, hrun, hrun,
    accepted_cons_of_error hx]
  exact ⟨rfl, rfl, rfl⟩

end Request
end RpcFlow
