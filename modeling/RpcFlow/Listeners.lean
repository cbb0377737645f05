import RpcFlow.HeaderBoard

/-!
# Listeners with habits

Listeners that do something when they are called: every one takes note of what it hears, one may
cancel its own registration, and one may register another listener when it hears its first header
since its notes were last taken away.

* `Listeners.register`, `Listeners.cancel` and `Listeners.propagate` act on the board and the notes
  together.
-/

set_option autoImplicit false

namespace RpcFlow

/-- What a listener does besides taking notes. -/
structure Habit where
  /-- The name its notes are kept under. -/
  name : String
  /-- The listener it registers, by name, with the header names that one listens for. -/
  chain : Option (String × List String)
  /-- Does it cancel its registration when it is called? -/
  stops : Bool
  deriving DecidableEq, Repr

/-- One note: the listener that was called, and with what. -/
structure HeaderNote where
  listener : String
  method : String
  header : String
  value : String
  deriving DecidableEq, Repr

/-- A board with listeners, the registrations they were given last, and their notes. -/
structure Listeners where
  board : HeaderBoard
  habits : Dict Habit
  tokens : Dict Nat
  /-- Which listeners were called since the notes were last taken away, by registration. -/
  called : List String
  notes : List HeaderNote
  deriving DecidableEq, Repr

namespace Listeners

/-- Nobody listens. -/
def empty : Listeners := ⟨.empty, [], [], [], []⟩

/-- Registers a listener for a method and some header names. -/
def add (l : Listeners) (method : String) (names : List String) (habit : Habit) :
    Nat × Listeners :=
  let listener := toString l.board.fresh
  let (token, board) := l.board.register method listener names
  (token, { l with board, habits := Dict.put l.habits listener habit })

/-- Registers a listener that can be cancelled by its name. -/
def register (l : Listeners) (method : String) (names : List String) (habit : Habit) : Listeners :=
  let (token, l) := l.add method names habit
  { l with tokens := Dict.put l.tokens habit.name token }

/-- Cancels the registration that a name was given last. -/
def cancel (l : Listeners) (name : String) : Listeners :=
  match Dict.at? l.tokens name with
  | some token => { l with board := l.board.cancel token }
  | none => l

/-- Is the registration that a name was given last cancelled? -/
def isCancelled (l : Listeners) (name : String) : Bool :=
  (Dict.at? l.tokens name).any l.board.isCancelled

/-- A listener is called. -/
def hear (c : HeaderCall) (l : Listeners) : Listeners :=
  match Dict.at? l.habits c.listener with
  | none => l
  | some habit =>
    let first := !l.called.contains c.listener
    let l := { l with
      called := c.listener :: l.called
      notes := l.notes ++ [⟨habit.name, c.method, c.name, c.value⟩] }
    let l :=
      match habit.chain, first with
      | some (name, names), true => (l.add c.method names ⟨name, none, false⟩).2
      | _, _ => l
    if habit.stops then { l with board := l.board.cancel c.token } else l

/-- Calls a listener of a board that is in use. -/
def react (c : HeaderCall) (s : HeaderBoard × Listeners) : HeaderBoard × Listeners :=
  let l := hear c { s.2 with board := s.1 }
  (l.board, l)

/-- Hands the headers of a response to the listeners of a method. -/
def propagate (l : Listeners) (method : String) (headers : Dict String) : Listeners :=
  let (board, l) := l.board.propagate method headers react l
  { l with board }

/-- Takes the notes away. -/
def takeNotes (l : Listeners) : List HeaderNote × Listeners :=
  (l.notes, { l with notes := [], called := [] })

end Listeners
end RpcFlow
