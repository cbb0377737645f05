import RpcFlow.Engine.Stages

/-!
# Blocks that play a list of actions

A playbook is a block made up of ready-made actions, for trying out how the engine deals with
stages that misbehave.  Each time the block is entered it plays the next turn; the last one repeats.
-/

set_option autoImplicit false

namespace RpcFlow

/-- How a crash describes itself: with a text, or with nothing that can be shown. -/
inductive Crash where
  | text (message : String)
  | other
  deriving DecidableEq, Repr

/-- The message of a crash. -/
def Crash.message : Crash → String
  | text message => message
  | other => "stage handler panicked"

/-- One action of a playbook. -/
inductive Action where
  /-- Uses the promise; `name` is how the action is noted down. -/
  | move (name : String) (m : Move)
  | deliver (v : Verdict)
  | setFlag (key : String) (value : Option String)
  | sleep (d : Duration)
  | look
  | returnError (error : CallError)
  | crash (how : Crash)
  deriving DecidableEq, Repr

namespace Playbook

/-- Plays the actions of a turn. -/
def play (p : Promise) : List Action → Routine
  | [] => .finish .ok
  | .move name m :: rest =>
    .complete p m fun answer => .note p (.did name answer) (play p rest)
  | .deliver v :: rest =>
    .deliver p v fun answer => .note p (.did "deliver" answer) (play p rest)
  | .setFlag key value :: rest =>
    .setFlag p key value (.note p (.did "set_meta" true) (play p rest))
  | .sleep d :: rest => .sleep d (play p rest)
  | .look :: rest => .look p fun view => .note p (.saw p view) (play p rest)
  | .returnError error :: _ => .note p (.said "return_err") (.finish (.failed error))
  | .crash how :: _ => .note p (.said "panic") (.finish (.crashed how.message))

/-- The turn to play after `n` earlier ones. -/
def turnAt (turns : List (List Action)) (n : Nat) : List Action :=
  (turns[n]?.or turns.getLast?).getD []

/-- A block that plays turns, with or without a window. -/
def block (window : Option Duration) (turns : List (List Action)) : Block :=
  let onTask (p : Promise) : Routine := .count p.stage fun n => play p (turnAt turns n)
  ⟨window, onTask, Block.inTurn onTask⟩

end Playbook
end RpcFlow
