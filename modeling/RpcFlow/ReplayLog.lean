/-!
# Replay logs

A replay log keeps everything pushed into it until it is completed, and every reader sees the whole
history from the first item on, whenever it starts.

* `ReplayLog.push` and `ReplayLog.pushOnce` add an item and say whether it was taken: an open log
  takes every push, and `pushOnce` only into an empty one.
* `ReplayLog.read` is what a reader at a given place gets next.
-/

set_option autoImplicit false

namespace RpcFlow

/-- Everything pushed so far, and whether more may come. -/
structure ReplayLog (α : Type) where
  items : List α
  completed : Bool
  deriving DecidableEq, Repr, Inhabited

/-- What a reader gets: an item, nothing yet, or nothing ever. -/
inductive Reading (α : Type) where
  | item (value : α)
  | waiting
  | ended
  deriving DecidableEq, Repr

namespace ReplayLog

variable {α : Type}

/-- The log nothing has been pushed into. -/
def empty : ReplayLog α := ⟨[], false⟩

def isEmpty (log : ReplayLog α) : Bool := log.items.isEmpty

def size (log : ReplayLog α) : Nat := log.items.length

/-- Adds an item to an open log. -/
def push (log : ReplayLog α) (item : α) : ReplayLog α × Bool :=
  if log.completed then (log, false) else ({ log with items := log.items ++ [item] }, true)

/-- Adds an item to an open log that is empty. -/
def pushOnce (log : ReplayLog α) (item : α) : ReplayLog α × Bool :=
  if log.completed || !log.isEmpty then (log, false)
  else ({ log with items := log.items ++ [item] }, true)

/-- Closes the log. -/
def complete (log : ReplayLog α) : ReplayLog α := { log with completed := true }

/-- The last item with a property. -/
def last? (log : ReplayLog α) (p : α → Bool) : Option α := log.items.reverse.find? p

/-- What a reader that has had `position` items gets next, and how many it has had then. -/
def read (log : ReplayLog α) (position : Nat) : Reading α × Nat :=
  match log.items[position]? with
  | some item => (.item item, position + 1)
  | none => (if log.completed then .ended else .waiting, position)

theorem complete_of_completed {log : ReplayLog α} (h : log.completed = true) :
    log.complete = log := by
  cases log
  cases h
  rfl

end ReplayLog
end RpcFlow
