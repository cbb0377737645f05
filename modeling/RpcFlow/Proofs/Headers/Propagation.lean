import Mathlib.Data.List.Nodup
import Mathlib.Data.List.Range
import RpcFlow.HeaderBoard

/-!
# Who hears of a header

A board forgets cancelled registrations now and then, and listeners register others while they are
called.  A response still reaches exactly those who were registered when it came in.

* `HeaderBoard.deliveries_eq` — what a pruned board delivers; pruning loses nobody.
* `Forum` — a board in use, with all that was ever done to it.
* `Forum.Orderly` — the invariant: what is left of a board after pruning are the registrations that were
  made and not cancelled.  `Forum.Orderly.carryOut` is its step, `Forum.orderly_after` the run.
* `Forum.Reached` — what becomes of a response.
* `Forum.propagates_exactly` — **a response reaches every live registration once, and nobody else**.
-/

set_option autoImplicit false

namespace RpcFlow

/-! ## Pruning -/

namespace HeaderBoard

theorem prune_prune (b : HeaderBoard) : b.prune.prune = b.prune := by
  simp only [prune, isCancelled, List.filter_filter, Bool.and_self]

/-- The size counts what pruning leaves. -/
theorem size_eq (b : HeaderBoard) : b.size = b.prune.registrations.length :=
  List.countP_eq_length_filter

/-- The call of a listener for one header. -/
def callOf (r : Registration) (method : String) (header : String × String) : HeaderCall :=
  ⟨r.listener, r.token, method, header.1, header.2⟩

/-- What is delivered are the headers that suit the registrations that pruning leaves. -/
theorem deliveries_eq (b : HeaderBoard) (method : String) (headers : Dict String) :
    b.deliveries method headers = b.prune.registrations.flatMap fun r =>
      (headers.filter fun h => r.accepts method h.1).map (callOf r method) := by
  simp only [deliveries, prune]
  induction b.registrations with
  | nil => rfl
  | cons r rest ih =>
    rw [List.flatMap_cons, ih, List.filter_cons]
    cases hr : b.isCancelled r.token with
    | true => rfl
    | false => rfl

theorem prune_register {b : HeaderBoard} (h : b.fresh ∉ b.cancelled) (method listener : String)
    (names : List String) :
    (b.register method listener names).2.prune.registrations =
      b.prune.registrations ++ [⟨b.fresh, method, names, listener⟩] := by
  have hold : b.prune.prune.registrations = b.prune.registrations := by rw [prune_prune]
  have hnew : b.isCancelled b.fresh = false := by simpa [isCancelled] using h
  simp only [register, prune, isCancelled, List.filter_append] at hold hnew ⊢
  rw [hold, List.filter_cons, List.filter_nil, hnew]
  rfl

theorem prune_cancel (b : HeaderBoard) (token : Nat) :
    (b.cancel token).prune.registrations =
      b.prune.registrations.filter fun r => r.token != token := by
  simp only [prune, cancel, isCancelled, List.filter_filter, List.contains_cons, Bool.not_or]
  rfl

end HeaderBoard

/-! ## A board in use -/

/-- A change of who listens. -/
inductive Change
  | register (method listener : String) (names : List String)
  | cancel (token : Nat)
  deriving DecidableEq, Repr

/-- A board with its history: all registrations that were ever made, all tokens that were ever cancelled,
and all calls of listeners so far. -/
structure Forum where
  board : HeaderBoard
  roll : List Registration
  gone : List Nat
  heard : List HeaderCall
  deriving DecidableEq, Repr

/-- What a listener does when it is called, which may hang on everything that happened before. -/
abbrev Conduct := HeaderCall → Forum → List Change

/-- What happens to a board from outside. -/
inductive Happening
  | change (d : Change)
  | response (method : String) (headers : Dict String)
  deriving DecidableEq, Repr

namespace Forum

def empty : Forum := ⟨.empty, [], [], []⟩

/-- A registration enters the roll under the token that is handed out.  Only a token that was handed out
can be cancelled. -/
def carryOut (f : Forum) : Change → Forum
  | .register method listener names =>
    { f with
      board := (f.board.register method listener names).2
      roll := f.roll ++ [⟨(f.board.register method listener names).1, method, names, listener⟩] }
  | .cancel token =>
    if token ∈ f.roll.map Registration.token then
      { f with board := f.board.cancel token, gone := token :: f.gone }
    else f

/-- A listener is called and reacts. -/
def hear (react : Conduct) (f : Forum) (c : HeaderCall) : Forum :=
  (react c f).foldl carryOut { f with heard := f.heard ++ [c] }

/-- The headers of a response are handed to the listeners, who find the board as it is by then. -/
def propagate (react : Conduct) (f : Forum) (method : String) (headers : Dict String) : Forum :=
  let (board, f) := f.board.propagate method headers
    (fun c s =>
      let f := hear react { s.2 with board := s.1 } c
      (f.board, f))
    f
  { f with board }

def happen (react : Conduct) (f : Forum) : Happening → Forum
  | .change d => f.carryOut d
  | .response method headers => f.propagate react method headers

/-- A board after some happenings. -/
def after (react : Conduct) (happenings : List Happening) : Forum :=
  happenings.foldl (happen react) empty

/-- The registrations that were made and not cancelled. -/
def live (f : Forum) : List Registration := f.roll.filter fun r => !f.gone.contains r.token

/-- A board while a response is handed to the listeners, after the first calls. -/
def during (react : Conduct) (f : Forum) (method : String) (headers : Dict String) (calls : Nat) :
    Forum :=
  ((f.board.deliveries method headers).take calls).foldl (hear react)
    { f with board := f.board.prune }

theorem propagate_eq (react : Conduct) (f : Forum) (method : String) (headers : Dict String) :
    f.propagate react method headers =
      f.during react method headers (f.board.deliveries method headers).length := by
  -- the board travels beside the history, and is put back into it at every call
  have hfold : ∀ (calls : List HeaderCall) (b : HeaderBoard) (g : Forum),
      let s := calls.foldl
        (fun s c =>
          let f := hear react { s.2 with board := s.1 } c
          (f.board, f)) (b, g)
      { s.2 with board := s.1 } = calls.foldl (hear react) { g with board := b } := by
    intro calls
    induction calls with
    | nil => exact fun b g => rfl
    | cons c calls ih => exact fun b g => ih _ _
  rw [during, List.take_length]
  exact hfold _ _ f

theorem after_append (react : Conduct) (happenings : List Happening) (x : Happening) :
    after react (happenings ++ [x]) = happen react (after react happenings) x := by
  rw [after, List.foldl_append]
  rfl

/-! ## The invariant -/

/-- Registrations have the tokens 0, 1, 2 and so on, cancellations are of such tokens, and pruning leaves
the live registrations. -/
structure Orderly (f : Forum) : Prop where
  tokens : f.roll.map Registration.token = List.range f.board.fresh
  cancelled : f.board.cancelled = f.gone
  issued : ∀ token ∈ f.gone, token < f.board.fresh
  live : f.board.prune.registrations = f.live

namespace Orderly

variable {f : Forum}

theorem empty : Orderly .empty := ⟨rfl, rfl, nofun, rfl⟩

theorem nodup_tokens (h : Orderly f) : (f.roll.map Registration.token).Nodup :=
  h.tokens ▸ List.nodup_range

theorem fresh_notMem (h : Orderly f) : f.board.fresh ∉ f.gone := fun hmem =>
  Nat.lt_irrefl _ (h.issued _ hmem)

theorem carryOut (h : Orderly f) (d : Change) : Orderly (f.carryOut d) := by
  cases d with
  | register method listener names =>
    refine ⟨?_, h.cancelled, fun token ht => Nat.lt_succ_of_lt (h.issued token ht), ?_⟩
    · simp only [Forum.carryOut, HeaderBoard.register, HeaderBoard.prune, List.map_append,
        List.map_singleton, h.tokens, List.range_succ]
    · -- the new token is not cancelled yet, so the new registration stays on both sides
      have hfresh : f.board.fresh ∉ f.board.cancelled := h.cancelled ▸ h.fresh_notMem
      have hnew : f.gone.contains f.board.fresh = false := by simpa using h.fresh_notMem
      have htoken : (f.board.register method listener names).1 = f.board.fresh := rfl
      simp only [Forum.carryOut, Forum.live, HeaderBoard.prune_register hfresh, h.live, htoken,
        List.filter_append, List.filter_cons, List.filter_nil, hnew]
      rfl
  | cancel token =>
    simp only [Forum.carryOut]
    split
    · rename_i htoken
      rw [h.tokens, List.mem_range] at htoken
      refine ⟨h.tokens, congrArg (token :: ·) h.cancelled, fun t ht => ?_, ?_⟩
      · rcases List.mem_cons.1 ht with rfl | ht
        · exact htoken
        · exact h.issued t ht
      · simp only [Forum.live, HeaderBoard.prune_cancel, h.live, List.filter_filter,
          List.contains_cons, Bool.not_or]
        rfl
    · exact h

/-- Pruning forgets nothing that counts. -/
theorem prune (h : Orderly f) : Orderly { f with board := f.board.prune } :=
  ⟨h.tokens, h.cancelled, h.issued, (congrArg _ f.board.prune_prune).trans h.live⟩

theorem hear (h : Orderly f) (react : Conduct) (c : HeaderCall) : Orderly (f.hear react c) := by
  have hcall : Orderly { f with heard := f.heard ++ [c] } :=
    ⟨h.tokens, h.cancelled, h.issued, h.live⟩
  exact List.foldlRecOn (react c f) Forum.carryOut hcall fun _ h d _ => h.carryOut d

theorem during (h : Orderly f) (react : Conduct) (method : String) (headers : Dict String)
    (calls : Nat) : Orderly (f.during react method headers calls) :=
  List.foldlRecOn _ (Forum.hear react) h.prune fun _ h c _ => h.hear react c

theorem propagate (h : Orderly f) (react : Conduct) (method : String) (headers : Dict String) :
    Orderly (f.propagate react method headers) :=
  propagate_eq react f method headers ▸ h.during react method headers _

end Orderly

theorem orderly_after (react : Conduct) (happenings : List Happening) :
    Orderly (after react happenings) :=
  List.foldlRecOn happenings (happen react) .empty fun _ h x _ => by
    cases x with
    | change d => exact h.carryOut d
    | response method headers => exact h.propagate react method headers

/-! ## What a response does -/

/-- Calls are only added, and so are registrations. -/
structure Grows (f f' : Forum) (calls : List HeaderCall) : Prop where
  heard : f'.heard = f.heard ++ calls
  roll : f.roll <+: f'.roll

theorem Grows.refl (f : Forum) : Grows f f [] := ⟨(List.append_nil _).symm, List.prefix_rfl⟩

theorem Grows.trans {f g k : Forum} {calls more : List HeaderCall} (h : Grows f g calls)
    (h' : Grows g k more) : Grows f k (calls ++ more) :=
  ⟨by rw [h'.heard, h.heard, List.append_assoc], h.roll.trans h'.roll⟩

theorem grows_carryOut (f : Forum) (d : Change) : Grows f (f.carryOut d) [] := by
  cases d with
  | register method listener names => exact ⟨(List.append_nil _).symm, List.prefix_append _ _⟩
  | cancel token =>
    simp only [carryOut]
    split
    · exact ⟨(List.append_nil _).symm, List.prefix_rfl⟩
    · exact .refl f

theorem grows_hear (react : Conduct) (f : Forum) (c : HeaderCall) : Grows f (f.hear react c) [c] := by
  have hcall : Grows f { f with heard := f.heard ++ [c] } [c] := ⟨rfl, List.prefix_rfl⟩
  refine List.foldlRecOn (motive := fun g => Grows f g [c]) (react c f) carryOut hcall fun g h d _ => ?_
  have hgrows := h.trans (grows_carryOut g d)
  rwa [List.append_nil] at hgrows

theorem grows_foldl_hear (react : Conduct) (calls : List HeaderCall) (f : Forum) :
    Grows f (calls.foldl (hear react) f) calls := by
  induction calls generalizing f with
  | nil => exact .refl f
  | cons c calls ih => exact (grows_hear react f c).trans (ih (f.hear react c))

theorem grows_propagate (react : Conduct) (f : Forum) (method : String) (headers : Dict String) :
    Grows f (f.propagate react method headers) (f.board.deliveries method headers) := by
  rw [propagate_eq, during, List.take_length]
  have hgrows := grows_foldl_hear react (f.board.deliveries method headers)
    { f with board := f.board.prune }
  exact ⟨hgrows.heard, hgrows.roll⟩

/-- Listeners that only register others, and cancel nobody, while they are called. -/
def OnlyRegister (react : Conduct) : Prop :=
  ∀ c f d, d ∈ react c f → ∃ method listener names, d = .register method listener names

/-- Nobody is cancelled by listeners that only register. -/
theorem gone_propagate {react : Conduct} (h : OnlyRegister react) (f : Forum) (method : String)
    (headers : Dict String) : (f.propagate react method headers).gone = f.gone := by
  rw [propagate_eq]
  have hpruned : { f with board := f.board.prune }.gone = f.gone := rfl
  refine List.foldlRecOn (motive := fun g => g.gone = f.gone) _ (hear react) hpruned
    fun g hg c _ => ?_
  have hcall : { g with heard := g.heard ++ [c] }.gone = f.gone := hg
  refine List.foldlRecOn (motive := fun k => k.gone = f.gone) (react c g) carryOut hcall
    fun k hk d hd => ?_
  obtain ⟨method, listener, names, rfl⟩ := h c g d hd
  exact hk

/-- The calls that a response makes: one for each header and each registration that is live, listens to
the method, and names the header or none at all. -/
theorem mem_deliveries {f : Forum} (h : Orderly f) {method : String} {headers : Dict String}
    {c : HeaderCall} :
    c ∈ f.board.deliveries method headers ↔ c.method = method ∧ (c.name, c.value) ∈ headers ∧
      ∃ r ∈ f.live, c.token = r.token ∧ c.listener = r.listener ∧ r.method = method ∧
        (r.names = [] ∨ c.name ∈ r.names) := by
  have haccepts : ∀ (r : Registration) (name : String), r.accepts method name = true ↔
      r.method = method ∧ (r.names = [] ∨ name ∈ r.names) := fun r name => by
    simp [Registration.accepts]
  simp only [HeaderBoard.deliveries_eq, h.live, List.mem_flatMap, List.mem_map, List.mem_filter,
    haccepts, HeaderBoard.callOf]
  constructor
  · rintro ⟨r, hr, header, ⟨hheader, hmethod, hnames⟩, rfl⟩
    exact ⟨rfl, hheader, r, hr, rfl, rfl, hmethod, hnames⟩
  · rintro ⟨rfl, hheader, r, hr, htoken, hlistener, hmethod, hnames⟩
    refine ⟨r, hr, (c.name, c.value), ⟨hheader, hmethod, hnames⟩, ?_⟩
    rw [← htoken, ← hlistener]

/-- No registration is called twice for a header. -/
theorem nodup_deliveries {f : Forum} (h : Orderly f) (method : String) {headers : Dict String}
    (hs : Dict.Sorted headers) :
    ((f.board.deliveries method headers).map fun c => (c.token, c.name)).Nodup := by
  have hkeys : (f.board.deliveries method headers).map (fun c => (c.token, c.name)) =
      f.live.flatMap fun r =>
        (headers.filter fun h => r.accepts method h.1).map fun h => (r.token, h.1) := by
    simp only [HeaderBoard.deliveries_eq, h.live, List.map_flatMap, List.map_map]
    rfl
  rw [hkeys, List.nodup_flatMap]
  constructor
  · intro r _
    refine List.pairwise_map.2 ((hs.filter _).imp fun hlt heq => ?_)
    exact String.ne_of_lt hlt (congrArg Prod.snd heq)
  · have htokens : f.live.Pairwise fun r r' => r.token ≠ r'.token :=
      (List.pairwise_map.1 h.nodup_tokens).filter _
    refine htokens.imp fun hne => List.disjoint_left.2 fun key hr hr' => ?_
    obtain ⟨_, -, rfl⟩ := List.mem_map.1 hr
    obtain ⟨_, -, heq⟩ := List.mem_map.1 hr'
    exact hne (congrArg Prod.fst heq).symm

/-- What becomes of a response: it makes these `calls`, and listeners add the registrations `made` while
they are called.  No registration is called twice for a header, and the calls are those for a header of
the response and a registration that was live, listens to the method, and names the header or none at
all.  Nobody is called for a registration that was just made. -/
structure Reached (f f' : Forum) (method : String) (headers : Dict String) (calls : List HeaderCall)
    (made : List Registration) : Prop where
  heard : f'.heard = f.heard ++ calls
  once : (calls.map fun c => (c.token, c.name)).Nodup
  called : ∀ c, c ∈ calls ↔ c.method = method ∧ (c.name, c.value) ∈ headers ∧
    ∃ r ∈ f.live, c.token = r.token ∧ c.listener = r.listener ∧ r.method = method ∧
      (r.names = [] ∨ c.name ∈ r.names)
  roll : f'.roll = f.roll ++ made
  later : ∀ r ∈ made, ∀ c ∈ calls, c.token ≠ r.token

/-- The board holds all live registrations, each under a token of its own, its size is their number, and
pruning changes neither. -/
structure Kept (f : Forum) : Prop where
  tokens : (f.roll.map Registration.token).Nodup
  stored : ∀ r ∈ f.live, r ∈ f.board.registrations
  size : f.board.size = f.live.length
  pruned : ∀ r ∈ f.live, r ∈ f.board.prune.registrations
  pruned_size : f.board.prune.size = f.board.size

theorem Orderly.kept {f : Forum} (h : Orderly f) : Kept f where
  tokens := h.nodup_tokens
  stored := fun r hr => (List.mem_filter.1 (h.live ▸ hr)).1
  size := by rw [HeaderBoard.size_eq, h.live]
  pruned := fun r hr => h.live ▸ hr
  pruned_size := by rw [HeaderBoard.size_eq, HeaderBoard.prune_prune, ← HeaderBoard.size_eq]

section

variable {f f' : Forum} {made : List Registration}

/-- A registration that is added has a token that none had before. -/
theorem Orderly.token_made (h' : Orderly f') (hroll : f'.roll = f.roll ++ made) {r : Registration}
    (hr : r ∈ made) : r.token ∉ f.roll.map Registration.token := fun hmem => by
  have hnodup := h'.nodup_tokens
  rw [hroll, List.map_append] at hnodup
  exact (List.nodup_append.1 hnodup).2.2 _ hmem _ (List.mem_map_of_mem hr) rfl

theorem Orderly.reached (h : Orderly f) (react : Conduct) (method : String) {headers : Dict String}
    (hs : Dict.Sorted headers) :
    ∃ calls made, Reached f (f.propagate react method headers) method headers calls made := by
  have hgrows := grows_propagate react f method headers
  obtain ⟨made, hmade⟩ := hgrows.roll
  refine ⟨_, made, hgrows.heard, nodup_deliveries h method hs, fun c => mem_deliveries h, hmade.symm,
    fun r hr c hc htoken => ?_⟩
  obtain ⟨-, -, caller, hcaller, hcall, -⟩ := (mem_deliveries h).1 hc
  refine (h.propagate react method headers).token_made hmade.symm hr ?_
  rw [← htoken, hcall]
  exact List.mem_map_of_mem (List.mem_filter.1 hcaller).1

/-- If nobody is cancelled, what is added is live beside what was live before. -/
theorem Orderly.live_append (h : Orderly f) (h' : Orderly f') (hroll : f'.roll = f.roll ++ made)
    (hgone : f'.gone = f.gone) : f'.live = f.live ++ made := by
  rw [Forum.live, Forum.live, hgone, hroll, List.filter_append]
  congr 1
  refine List.filter_eq_self.2 fun r hr => ?_
  have hnew := h'.token_made hroll hr
  rw [h.tokens, List.mem_range] at hnew
  have hgone : r.token ∉ f.gone := fun hmem => hnew (h.issued _ hmem)
  simpa using hgone

end

/-- **A response reaches every live registration, once for each header that suits it, and nobody else**,
whatever was done to the board before and whatever the listeners do when they are called.  The board
loses no live registration, and its size is the number of these, also while listeners are called.  If
listeners only register others, these are live in the end, so that the next response reaches them. -/
theorem propagates_exactly (react : Conduct) (happenings : List Happening) (method : String)
    {headers : Dict String} (hs : Dict.Sorted headers) :
    Kept (after react happenings) ∧
    (∀ calls, Kept ((after react happenings).during react method headers calls)) ∧
    ∃ calls made,
      Reached (after react happenings) (after react (happenings ++ [.response method headers])) method
        headers calls made ∧
      (OnlyRegister react →
        (after react (happenings ++ [.response method headers])).live =
          (after react happenings).live ++ made) := by
  have horderly := orderly_after react happenings
  obtain ⟨calls, made, hreached⟩ := horderly.reached react method hs
  rw [after_append]
  refine ⟨horderly.kept, fun n => (horderly.during react method headers n).kept, calls, made,
    hreached, fun hreact => ?_⟩
  exact horderly.live_append (horderly.propagate react method headers) hreached.roll
    (gone_propagate hreact _ method headers)

/-- A listener that has another one registered when it hears its first header. -/
def chain : Conduct := fun c f =>
  if c.listener = "first" ∧ ∀ r ∈ f.roll, r.listener ≠ "second" then
    [.register c.method "second" ["token"]]
  else []

/-- Two listeners of `login`, of which one is cancelled, and one of `logout`. -/
def joined : List Happening :=
  [.change (.register "login" "first" []), .change (.register "login" "mute" ["token"]),
    .change (.register "logout" "other" []), .change (.cancel 1)]

/-- The headers of an answer. -/
def answer : Dict String := [("token", "t"), ("trace", "u")]

theorem propagates_exactly_chained :
    Dict.Sorted answer ∧ OnlyRegister chain ∧
    ((after chain (joined ++ [.response "login" answer, .response "login" answer])).heard.map
      fun c => (c.listener, c.name)) =
        [("first", "token"), ("first", "trace"), ("first", "token"), ("first", "trace"),
          ("second", "token")] ∧
    ∃ calls made,
      Reached (after chain joined) (after chain (joined ++ [.response "login" answer])) "login" answer
        calls made ∧
      (after chain (joined ++ [.response "login" answer])).live =
        (after chain joined).live ++ made := by
  have hs : Dict.Sorted answer := by decide
  have hreact : OnlyRegister chain := fun c f d hd => by
    rw [chain] at hd
    split at hd
    · exact ⟨_, _, _, List.mem_singleton.1 hd⟩
    · cases hd
  obtain ⟨-, -, calls, made, hreached, hlive⟩ := propagates_exactly chain joined "login" hs
  exact ⟨hs, hreact, by decide, calls, made, hreached, hlive hreact⟩

end Forum
end RpcFlow
