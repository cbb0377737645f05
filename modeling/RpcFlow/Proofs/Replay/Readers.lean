import RpcFlow.ReplayLog

/-!
# A log and its readers

Writers and readers take turns at a log, in whatever order they come.  A reader that finds nothing new
waits to be woken.  A writer that has changed the log wakes those who wait only after it has let go of
the log, so that others may have their turn in between.

* `Access`, `Answer` — what is done to a log, and what comes of it.
* `ReadingRoom` — a log in use, with its history: all that was done to it, with the answers.
* `ReadingRoom.Orderly` — the invariant: the log and its readers are as the history has them.
  `ReadingRoom.Orderly.access` is its step, `ReadingRoom.orderly_after` the run.
* `ReadingRoom.Answers` — what comes of the next access, told by the history alone.
* `ReadingRoom.replays_exactly` — **every reader is given what was pushed, from the first item on**.
-/

set_option autoImplicit false

namespace RpcFlow

/-! ## What can be done to a log -/

namespace ReplayLog

variable {α : Type}

theorem push_cases (log : ReplayLog α) (item : α) :
    (log.completed = false ∧ log.push item = ({ log with items := log.items ++ [item] }, true)) ∨
    (log.completed = true ∧ log.push item = (log, false)) := by
  unfold push
  split
  · rename_i hc
    exact .inr ⟨hc, rfl⟩
  · rename_i hc
    exact .inl ⟨by simpa using hc, rfl⟩

theorem pushOnce_cases (log : ReplayLog α) (item : α) :
    ((log.completed = false ∧ log.items = []) ∧
      log.pushOnce item = ({ log with items := log.items ++ [item] }, true)) ∨
    (¬(log.completed = false ∧ log.items = []) ∧ log.pushOnce item = (log, false)) := by
  unfold pushOnce
  split
  · rename_i hc
    exact .inr ⟨fun hopen => by simp [isEmpty, hopen.1, hopen.2] at hc, rfl⟩
  · rename_i hc
    exact .inl ⟨by simpa [isEmpty] using hc, rfl⟩

/-- A reader that has had some items gets the next one; if there is none, it is at the end. -/
theorem read_cases (log : ReplayLog α) {position : Nat} (h : position ≤ log.items.length) :
    (∃ item, log.items[position]? = some item ∧ log.read position = (.item item, position + 1)) ∨
    (position = log.items.length ∧ log.completed = true ∧ log.read position = (.ended, position)) ∨
    (position = log.items.length ∧ log.completed = false ∧
      log.read position = (.waiting, position)) := by
  unfold read
  cases hx : log.items[position]? with
  | some item => exact .inl ⟨item, rfl, rfl⟩
  | none =>
    have hend : position = log.items.length := Nat.le_antisymm h (List.getElem?_eq_none_iff.1 hx)
    cases hc : log.completed with
    | true => exact .inr (.inl ⟨hend, rfl, rfl⟩)
    | false => exact .inr (.inr ⟨hend, rfl, rfl⟩)

section

variable {log : ReplayLog α} {position : Nat} (h : position ≤ log.items.length)
include h

theorem read_eq_item_iff {x : α} : (log.read position).1 = .item x ↔ log.items[position]? = some x := by
  obtain ⟨y, hy, hread⟩ | ⟨rfl, -, hread⟩ | ⟨rfl, -, hread⟩ := log.read_cases h <;> rw [hread]
  · simp [hy]
  · simp
  · simp

theorem read_eq_ended_iff : (log.read position).1 = .ended ↔
    log.completed = true ∧ position = log.items.length := by
  obtain ⟨y, hy, hread⟩ | ⟨hend, hc, hread⟩ | ⟨-, hc, hread⟩ := log.read_cases h <;> rw [hread]
  · have hlt := (List.getElem?_eq_some_iff.1 hy).1
    simp [Nat.ne_of_lt hlt]
  · simp [hc, hend]
  · simp [hc]

theorem read_eq_waiting_iff : (log.read position).1 = .waiting ↔
    log.completed = false ∧ position = log.items.length := by
  obtain ⟨y, hy, hread⟩ | ⟨-, hc, hread⟩ | ⟨hend, hc, hread⟩ := log.read_cases h <;> rw [hread]
  · have hlt := (List.getElem?_eq_some_iff.1 hy).1
    simp [Nat.ne_of_lt hlt]
  · simp [hc]
  · simp [hc, hend]

end

/-- A later state of a log: items were added at the end, and none once it was completed. -/
structure Later (log log' : ReplayLog α) : Prop where
  items : log.items <+: log'.items
  completed : log.completed = true → log' = log

theorem Later.refl (log : ReplayLog α) : Later log log := ⟨List.prefix_rfl, fun _ => rfl⟩

theorem Later.trans {log log' log'' : ReplayLog α} (h : Later log log') (h' : Later log' log'') :
    Later log log'' :=
  ⟨h.items.trans h'.items, fun hc => (h'.completed (h.completed hc ▸ hc)).trans (h.completed hc)⟩

theorem later_push (log : ReplayLog α) (item : α) : Later log (log.push item).1 := by
  obtain ⟨hc, h⟩ | ⟨-, h⟩ := log.push_cases item <;> rw [h]
  · exact ⟨List.prefix_append _ _, fun hc' => absurd (hc.symm.trans hc') Bool.false_ne_true⟩
  · exact .refl log

theorem later_pushOnce (log : ReplayLog α) (item : α) : Later log (log.pushOnce item).1 := by
  obtain ⟨⟨hc, -⟩, h⟩ | ⟨-, h⟩ := log.pushOnce_cases item <;> rw [h]
  · exact ⟨List.prefix_append _ _, fun hc' => absurd (hc.symm.trans hc') Bool.false_ne_true⟩
  · exact .refl log

theorem later_complete (log : ReplayLog α) : Later log log.complete :=
  ⟨List.prefix_rfl, complete_of_completed⟩

end ReplayLog

/-- Must the reader wait? -/
def Reading.isWaiting {α : Type} : Reading α → Bool
  | waiting => true
  | _ => false

/-- What a writer or a reader does while it has a log to itself. -/
inductive Access (α : Type) where
  | push (item : α)
  | pushOnce (item : α)
  | complete
  /-- A writer that has changed the log wakes all readers that wait. -/
  | notify
  /-- There is one more reader. -/
  | join
  /-- A reader asks for its next item, for the first time or again after it had to wait. -/
  | read (reader : Nat)
  deriving DecidableEq, Repr

/-- What comes of an access. -/
inductive Answer (α : Type) where
  | done
  | taken (yes : Bool)
  | reading (r : Reading α)
  deriving DecidableEq, Repr

/-- How many items a reader has had, and whether it waits to be woken. -/
structure Bookmark where
  position : Nat
  waits : Bool
  deriving DecidableEq, Repr

/-- A log in use. -/
structure ReadingRoom (α : Type) where
  log : ReplayLog α
  readers : List Bookmark
  /-- The number of writers that have changed the log and have yet to wake those who wait. -/
  due : Nat
  /-- Everything that was done, with the answers. -/
  history : List (Access α × Answer α)
  deriving DecidableEq, Repr

namespace ReadingRoom

variable {α : Type}

def empty : ReadingRoom α := ⟨.empty, [], 0, []⟩

/-- All readers that wait are woken, if a writer has yet to do so. -/
def wake (r : ReadingRoom α) : ReadingRoom α :=
  match r.due with
  | 0 => r
  | due + 1 => { r with readers := r.readers.map fun b => { b with waits := false }, due }

/-- The log as a writer leaves it who has offered an item; if it was taken, those who wait are to be
woken. -/
def offered (r : ReadingRoom α) (offer : ReplayLog α × Bool) : Answer α × ReadingRoom α :=
  (.taken offer.2, { r with log := offer.1, due := if offer.2 then r.due + 1 else r.due })

/-- What comes of an access, and how it leaves the log and its readers. -/
def serve (r : ReadingRoom α) : Access α → Answer α × ReadingRoom α
  | .push item => r.offered (r.log.push item)
  | .pushOnce item => r.offered (r.log.pushOnce item)
  | .complete => (.done, { r with log := r.log.complete, due := r.due + 1 })
  | .notify => (.done, r.wake)
  | .join => (.done, { r with readers := r.readers ++ [⟨0, false⟩] })
  | .read i =>
    match r.readers[i]? with
    | none => (.done, r)
    | some b =>
      let (reading, position) := r.log.read b.position
      (.reading reading, { r with readers := r.readers.set i ⟨position, reading.isWaiting⟩ })

/-- An access is made and written down. -/
def access (r : ReadingRoom α) (a : Access α) : ReadingRoom α :=
  { (r.serve a).2 with history := r.history ++ [(a, (r.serve a).1)] }

/-- A log after some accesses, in the order in which they were made. -/
def after (accesses : List (Access α)) : ReadingRoom α := accesses.foldl access empty

theorem after_append (accesses more : List (Access α)) :
    after (accesses ++ more) = more.foldl access (after accesses) :=
  List.foldl_append

theorem map_fst_history_after (accesses : List (Access α)) :
    (after accesses).history.map Prod.fst = accesses := by
  have hfold : ∀ r : ReadingRoom α, (accesses.foldl access r).history.map Prod.fst =
      r.history.map Prod.fst ++ accesses := by
    induction accesses with
    | nil => exact fun r => (List.append_nil _).symm
    | cons a accesses ih =>
      intro r
      rw [List.foldl_cons, ih, access, List.map_append, List.append_assoc]
      rfl
  exact hfold empty

theorem log_wake (r : ReadingRoom α) : r.wake.log = r.log := by
  unfold wake
  split <;> rfl

theorem serve_read_of_none {r : ReadingRoom α} {i : Nat} (h : r.readers[i]? = none) :
    r.serve (.read i) = (.done, r) := by
  simp only [serve, h]

theorem serve_read {r : ReadingRoom α} {i : Nat} {b : Bookmark} (h : r.readers[i]? = some b) :
    r.serve (.read i) =
      (.reading (r.log.read b.position).1,
        { r with readers :=
            r.readers.set i ⟨(r.log.read b.position).2, (r.log.read b.position).1.isWaiting⟩ }) := by
  simp only [serve, h]

/-- An access leaves the log in a later state. -/
theorem later_access (r : ReadingRoom α) (a : Access α) : r.log.Later (r.access a).log := by
  cases a with
  | push item => exact r.log.later_push item
  | pushOnce item => exact r.log.later_pushOnce item
  | complete => exact r.log.later_complete
  | notify => exact r.log_wake ▸ .refl r.log
  | join => exact .refl r.log
  | read i =>
    have hlog : (r.access (.read i)).log = r.log := by
      cases hb : r.readers[i]? with
      | none => rw [access, serve_read_of_none hb]
      | some b => rw [access, serve_read hb]
    exact hlog ▸ .refl r.log

theorem later_foldl_access (accesses : List (Access α)) (r : ReadingRoom α) :
    r.log.Later (accesses.foldl access r).log := by
  induction accesses generalizing r with
  | nil => exact .refl r.log
  | cons a accesses ih => exact (r.later_access a).trans (ih (r.access a))

/-! ## What the history tells -/

/-- The items that were taken, in order. -/
def pushed (history : List (Access α × Answer α)) : List α :=
  history.filterMap fun
    | (.push item, .taken true) => some item
    | (.pushOnce item, .taken true) => some item
    | _ => none

/-- The items that a reader was given, in order. -/
def returned (history : List (Access α × Answer α)) (i : Nat) : List α :=
  history.filterMap fun
    | (.read j, .reading (.item x)) => if j = i then some x else none
    | _ => none

/-- The log was completed. -/
def Closed (history : List (Access α × Answer α)) : Prop := .complete ∈ history.map Prod.fst

theorem pushed_append (history later : List (Access α × Answer α)) :
    pushed (history ++ later) = pushed history ++ pushed later :=
  List.filterMap_append

theorem returned_append (history later : List (Access α × Answer α)) (i : Nat) :
    returned (history ++ later) i = returned history i ++ returned later i :=
  List.filterMap_append

theorem closed_append_singleton {history : List (Access α × Answer α)} {x : Access α × Answer α} :
    Closed (history ++ [x]) ↔ Closed history ∨ x.1 = .complete := by
  rw [Closed, List.map_append, List.mem_append, List.map_singleton, List.mem_singleton,
    eq_comm (a := Access.complete)]
  rfl

/-! ## The invariant -/

/-- The log holds what was taken and is completed if someone has completed it, and each reader was given
the items up to its bookmark.  Who waits is at the end of an open log, or will be woken. -/
structure Orderly (r : ReadingRoom α) : Prop where
  items : r.log.items = pushed r.history
  completed : r.log.completed = true ↔ Closed r.history
  position : ∀ b ∈ r.readers, b.position ≤ r.log.items.length
  returned : ∀ i b, r.readers[i]? = some b → returned r.history i = r.log.items.take b.position
  absent : ∀ i, r.readers[i]? = none → ReadingRoom.returned r.history i = []
  waits : ∀ b ∈ r.readers, b.waits = true →
    0 < r.due ∨ (b.position = r.log.items.length ∧ r.log.completed = false)

namespace Orderly

variable {r : ReadingRoom α}

theorem empty : Orderly (empty : ReadingRoom α) :=
  ⟨rfl, by simp [ReadingRoom.empty, ReplayLog.empty, Closed], nofun, nofun, fun _ _ => rfl, nofun⟩

/-- An access that changes nothing, and gives a reader nothing, may be written down. -/
theorem note (h : Orderly r) {x : Access α × Answer α} (hpushed : pushed [x] = [])
    (hreturned : ∀ i, ReadingRoom.returned [x] i = []) (hx : x.1 ≠ .complete) :
    Orderly { r with history := r.history ++ [x] } where
  items := by rw [pushed_append, hpushed, List.append_nil, h.items]
  completed := by rw [closed_append_singleton, h.completed, or_iff_left hx]
  position := h.position
  returned i b hb := by rw [returned_append, hreturned, List.append_nil, h.returned i b hb]
  absent i hi := by rw [returned_append, hreturned, List.append_nil, h.absent i hi]
  waits := h.waits

/-- An open log takes an item; who waits will be woken. -/
theorem take (h : Orderly r) (item : α) {a : Access α} (hpushed : pushed [(a, .taken true)] = [item])
    (hreturned : ∀ i, ReadingRoom.returned [(a, Answer.taken true)] i = []) (ha : a ≠ .complete) :
    Orderly
      { r with
        log := { r.log with items := r.log.items ++ [item] }
        due := r.due + 1
        history := r.history ++ [(a, .taken true)] } where
  items := by rw [pushed_append, hpushed, ← h.items]
  completed := by rw [closed_append_singleton, or_iff_left ha]; exact h.completed
  position b hb := by
    rw [List.length_append]
    exact Nat.le_add_right_of_le (h.position b hb)
  returned i b hb := by
    rw [returned_append, hreturned, List.append_nil, h.returned i b hb,
      List.take_append_of_le_length (h.position b (List.mem_of_getElem? hb))]
  absent i hi := by rw [returned_append, hreturned, List.append_nil, h.absent i hi]
  waits b _ _ := .inl (Nat.succ_pos r.due)

/-- What one reader is given is not given to another. -/
theorem returned_read_of_ne {i j : Nat} (hij : i ≠ j) (reading : Reading α) :
    ReadingRoom.returned [(.read i, .reading reading)] j = [] := by
  cases reading <;> simp [ReadingRoom.returned, hij]

/-- A reader is answered, and its bookmark moves on. -/
theorem turn (h : Orderly r) {i : Nat} (hi : i < r.readers.length) {b : Bookmark} {reading : Reading α}
    (hposition : b.position ≤ r.log.items.length)
    (hreturned : ReadingRoom.returned r.history i ++
      ReadingRoom.returned [(.read i, .reading reading)] i = r.log.items.take b.position)
    (hwaits : b.waits = true → b.position = r.log.items.length ∧ r.log.completed = false) :
    Orderly
      { r with
        readers := r.readers.set i b
        history := r.history ++ [(.read i, .reading reading)] } where
  items := by rw [pushed_append, ← h.items]; exact (List.append_nil _).symm
  completed := by rw [closed_append_singleton, or_iff_left nofun]; exact h.completed
  position b' hb' := by
    rcases List.mem_or_eq_of_mem_set hb' with hb' | rfl
    · exact h.position b' hb'
    · exact hposition
  returned j b' hb' := by
    rw [returned_append]
    by_cases hij : i = j
    · subst hij
      rw [List.getElem?_set_self hi] at hb'
      cases hb'
      exact hreturned
    · rw [List.getElem?_set_ne hij] at hb'
      rw [returned_read_of_ne hij, List.append_nil, h.returned j b' hb']
  absent j hj := by
    rw [List.getElem?_eq_none_iff, List.length_set] at hj
    have hij : i ≠ j := Nat.ne_of_lt (Nat.lt_of_lt_of_le hi hj)
    rw [returned_append, returned_read_of_ne hij, List.append_nil,
      h.absent j (List.getElem?_eq_none hj)]
  waits b' hb' hw := by
    rcases List.mem_or_eq_of_mem_set hb' with hb' | rfl
    · exact h.waits b' hb' hw
    · exact .inr (hwaits hw)

theorem read (h : Orderly r) {i : Nat} {b : Bookmark} (hb : r.readers[i]? = some b) :
    Orderly (r.access (.read i)) := by
  have hi : i < r.readers.length := (List.getElem?_eq_some_iff.1 hb).1
  have hposition := h.position b (List.mem_of_getElem? hb)
  rw [ReadingRoom.access, serve_read hb]
  obtain ⟨item, hitem, hread⟩ | ⟨hend, -, hread⟩ | ⟨hend, hopen, hread⟩ := r.log.read_cases hposition
    <;> rw [hread]
  · have hnext : ReadingRoom.returned [(.read i, .reading (.item item))] i = [item] := by
      simp [ReadingRoom.returned]
    refine h.turn hi (List.getElem?_eq_some_iff.1 hitem).1 ?_ nofun
    rw [hnext, h.returned i b hb, List.take_add_one, hitem]
    rfl
  · exact h.turn hi hposition ((List.append_nil _).trans (h.returned i b hb)) nofun
  · exact h.turn hi hposition ((List.append_nil _).trans (h.returned i b hb)) fun _ => ⟨hend, hopen⟩

/-- Who waits does so no longer once it is woken. -/
theorem wake (h : Orderly r) : Orderly r.wake := by
  unfold ReadingRoom.wake
  split
  · exact h
  · refine ⟨h.items, h.completed, fun b hb => ?_, fun i b hb => ?_, fun i hi => ?_, fun b hb hw => ?_⟩
    · obtain ⟨sleeper, hsleeper, rfl⟩ := List.mem_map.1 hb
      exact h.position sleeper hsleeper
    · rw [List.getElem?_map] at hb
      obtain ⟨sleeper, hsleeper, rfl⟩ := Option.map_eq_some_iff.1 hb
      exact h.returned i sleeper hsleeper
    · rw [List.getElem?_map, Option.map_eq_none_iff] at hi
      exact h.absent i hi
    · obtain ⟨sleeper, -, rfl⟩ := List.mem_map.1 hb
      cases hw

/-- Whoever is new has been given nothing. -/
theorem join (h : Orderly r) : Orderly { r with readers := r.readers ++ [⟨0, false⟩] } := by
  have hback : ∀ {b : Bookmark}, b ∈ r.readers ++ [⟨0, false⟩] → b ∈ r.readers ∨ b = ⟨0, false⟩ := by
    intro b hb
    simpa using hb
  refine ⟨h.items, h.completed, fun b hb => ?_, fun i b hb => ?_, fun i hi => ?_, fun b hb hw => ?_⟩
  · rcases hback hb with hb | rfl
    · exact h.position b hb
    · exact Nat.zero_le _
  · rcases Nat.lt_or_ge i r.readers.length with hi | hi
    · rw [List.getElem?_append_left hi] at hb
      exact h.returned i b hb
    · rw [List.getElem?_append_right hi] at hb
      have hnew := List.mem_singleton.1 (List.mem_of_getElem? hb)
      rw [h.absent i (List.getElem?_eq_none hi), hnew]
      rfl
  · rw [List.getElem?_eq_none_iff, List.length_append] at hi
    exact h.absent i (List.getElem?_eq_none (Nat.le_of_add_right_le hi))
  · rcases hback hb with hb | rfl
    · exact h.waits b hb hw
    · cases hw

/-- Whoever waits for more will be woken, since there is none. -/
theorem complete (h : Orderly r) : Orderly (r.access .complete) where
  items := by
    have hpushed := pushed_append r.history [(.complete, .done)]
    exact h.items.trans ((List.append_nil _).symm.trans hpushed.symm)
  completed := iff_of_true rfl (closed_append_singleton.2 (.inr rfl))
  position := h.position
  returned i b hb := by
    rw [ReadingRoom.access, returned_append]
    exact (List.append_nil _).trans (h.returned i b hb)
  absent i hi := by
    rw [ReadingRoom.access, returned_append]
    exact (List.append_nil _).trans (h.absent i hi)
  waits _ _ _ := .inl (Nat.succ_pos r.due)

theorem access (h : Orderly r) (a : Access α) : Orderly (r.access a) := by
  cases a with
  | push item =>
    obtain ⟨-, hpush⟩ | ⟨-, hpush⟩ := r.log.push_cases item <;> rw [ReadingRoom.access, serve, hpush]
    · exact h.take item rfl (fun _ => rfl) nofun
    · exact h.note rfl (fun _ => rfl) nofun
  | pushOnce item =>
    obtain ⟨-, hpush⟩ | ⟨-, hpush⟩ := r.log.pushOnce_cases item <;> rw [ReadingRoom.access, serve, hpush]
    · exact h.take item rfl (fun _ => rfl) nofun
    · exact h.note rfl (fun _ => rfl) nofun
  | complete => exact h.complete
  | notify =>
    have hhistory : r.wake.history = r.history := by
      unfold ReadingRoom.wake
      split <;> rfl
    rw [ReadingRoom.access, ← hhistory]
    exact h.wake.note rfl (fun _ => rfl) nofun
  | join => exact h.join.note rfl (fun _ => rfl) nofun
  | read i =>
    cases hb : r.readers[i]? with
    | none =>
      rw [ReadingRoom.access, serve_read_of_none hb]
      exact h.note rfl (fun _ => rfl) nofun
    | some b => exact h.read hb

end Orderly

theorem orderly_after (accesses : List (Access α)) : Orderly (after accesses) :=
  List.foldlRecOn accesses access .empty fun _ h a _ => h.access a

/-! ## The result -/

/-- The log and its readers, told by the history: the items are those that were taken, and the log is
completed once someone has completed it.  What a reader was given are the first items, as many as its
bookmark says.  Whoever waits has had every item of an open log, unless it is about to be woken. -/
structure Exact (r : ReadingRoom α) : Prop where
  items : r.log.items = pushed r.history
  completed : r.log.completed = true ↔ Closed r.history
  returned : ∀ i, ReadingRoom.returned r.history i <+: r.log.items
  position : ∀ i b, r.readers[i]? = some b → b.position = (ReadingRoom.returned r.history i).length
  waits : ∀ i b, r.readers[i]? = some b → b.waits = true →
    0 < r.due ∨ (ReadingRoom.returned r.history i = r.log.items ∧ r.log.completed = false)

/-- What comes of the next access, told by the history. -/
structure Answers (r : ReadingRoom α) : Prop where
  push : ∀ item, (r.serve (.push item)).1 = .taken true ↔ ¬Closed r.history
  pushOnce : ∀ item, (r.serve (.pushOnce item)).1 = .taken true ↔
    ¬Closed r.history ∧ pushed r.history = []
  item : ∀ i < r.readers.length, ∀ x, (r.serve (.read i)).1 = .reading (.item x) ↔
    returned r.history i ++ [x] <+: pushed r.history
  ended : ∀ i < r.readers.length, (r.serve (.read i)).1 = .reading .ended ↔
    Closed r.history ∧ returned r.history i = pushed r.history
  waiting : ∀ i < r.readers.length, (r.serve (.read i)).1 = .reading .waiting ↔
    ¬Closed r.history ∧ returned r.history i = pushed r.history

/-- One more item is there if it stands where a reader has come to. -/
theorem take_append_singleton_prefix {l : List α} {n : Nat} {x : α} (hn : n ≤ l.length) :
    l.take n ++ [x] <+: l ↔ l[n]? = some x := by
  constructor
  · rintro ⟨rest, hrest⟩
    rw [← hrest, List.append_assoc, List.getElem?_append_right (List.length_take_le n l),
      List.length_take_of_le hn, Nat.sub_self]
    rfl
  · intro hx
    have hnext : l.take (n + 1) = l.take n ++ [x] := by
      rw [List.take_add_one, hx]
      rfl
    exact hnext ▸ List.take_prefix (n + 1) l

namespace Orderly

variable {r : ReadingRoom α}

/-- A reader has had everything if its bookmark is at the end. -/
theorem returned_eq_iff (h : Orderly r) {i : Nat} {b : Bookmark} (hb : r.readers[i]? = some b) :
    ReadingRoom.returned r.history i = r.log.items ↔ b.position = r.log.items.length := by
  have hposition := h.position b (List.mem_of_getElem? hb)
  rw [h.returned i b hb]
  constructor
  · intro htake
    have hlength := congrArg List.length htake
    rwa [List.length_take_of_le hposition] at hlength
  · exact fun hend => List.take_of_length_le (Nat.le_of_eq hend.symm)

theorem exact (h : Orderly r) : Exact r where
  items := h.items
  completed := h.completed
  returned i := by
    cases hb : r.readers[i]? with
    | none => exact h.absent i hb ▸ List.nil_prefix
    | some b => exact h.returned i b hb ▸ List.take_prefix b.position r.log.items
  position i b hb := by
    rw [h.returned i b hb, List.length_take_of_le (h.position b (List.mem_of_getElem? hb))]
  waits i b hb hw := (h.waits b (List.mem_of_getElem? hb) hw).imp_right fun hend =>
    ⟨(h.returned_eq_iff hb).2 hend.1, hend.2⟩

theorem answers (h : Orderly r) : Answers r := by
  have hopen : r.log.completed = false ↔ ¬Closed r.history := by
    rw [← h.completed, Bool.not_eq_true]
  have hread : ∀ i < r.readers.length, ∃ b, r.readers[i]? = some b ∧
      ∀ reading, (r.serve (.read i)).1 = .reading reading ↔ (r.log.read b.position).1 = reading :=
    fun i hi =>
      have hb := List.getElem?_eq_getElem hi
      ⟨_, hb, fun reading => by rw [serve_read hb, Answer.reading.injEq]⟩
  refine ⟨fun item => ?_, fun item => ?_, fun i hi x => ?_, fun i hi => ?_, fun i hi => ?_⟩
  · rw [← hopen]
    obtain ⟨hc, hpush⟩ | ⟨hc, hpush⟩ := r.log.push_cases item <;> simp [serve, offered, hpush, hc]
  · rw [← hopen, ← h.items]
    obtain ⟨hc, hpush⟩ | ⟨hc, hpush⟩ := r.log.pushOnce_cases item
    · simp [serve, offered, hpush, hc]
    · exact iff_of_false (by simp [serve, offered, hpush]) hc
  all_goals
    obtain ⟨b, hb, hserve⟩ := hread i hi
    have hposition := h.position b (List.mem_of_getElem? hb)
  · rw [hserve, ReplayLog.read_eq_item_iff hposition, ← h.items, h.returned i b hb,
      take_append_singleton_prefix hposition]
  · rw [hserve, ReplayLog.read_eq_ended_iff hposition, ← h.items, h.returned_eq_iff hb, h.completed]
  · rw [hserve, ReplayLog.read_eq_waiting_iff hposition, ← h.items, h.returned_eq_iff hb, hopen]

end Orderly

/-- **Every reader is given what was pushed, from the first item on**, whoever has a turn at the log and
when: writers, readers that come late, and the one who completes it.  What becomes of an access depends
on what was done before: a push is taken by an open log, a push that is to be the only one by an open log
that has taken nothing, and a reader gets the item after those it was given, waits if it has had all
items of an open log, and comes to the end if it has had all items of a completed one.  Items are only
added, at the end, and none after the log was completed. -/
theorem replays_exactly (accesses : List (Access α)) :
    (after accesses).history.map Prod.fst = accesses ∧
    Exact (after accesses) ∧
    Answers (after accesses) ∧
    ∀ more, (after accesses).log.items <+: (after (accesses ++ more)).log.items ∧
      (.complete ∈ accesses → (after (accesses ++ more)).log = (after accesses).log) := by
  have horderly := orderly_after accesses
  have hhistory := map_fst_history_after accesses
  refine ⟨hhistory, horderly.exact, horderly.answers, fun more => ?_⟩
  have hlater := later_foldl_access more (after accesses)
  rw [after_append]
  refine ⟨hlater.items, fun hc => hlater.completed (horderly.completed.2 ?_)⟩
  rwa [Closed, hhistory]

/-- A reader that comes when the log is completed is given all that was pushed until then. -/
example :
    (after [.push 1, .push 2, .complete, .push 3, .join, .read 0, .read 0, .read 0]).history.map
        Prod.snd =
      [.taken true, .taken true, .done, .taken false, .done, .reading (.item 1), .reading (.item 2),
        .reading (.ended)] := by
  decide

end ReadingRoom
end RpcFlow
