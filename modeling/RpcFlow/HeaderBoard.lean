import RpcFlow.Dict

/-!
# Listening for response headers

Listeners register for the responses of one method, for some header names or for all.  A response
is propagated in two steps: first the deliveries are listed, then the listeners are called one
after the other.  A listener may register or cancel while it is called; that changes later
propagations, not the list of the one in progress.

* `HeaderBoard.deliveries` is the list of calls that a response leads to.
* `HeaderBoard.propagate` makes them, threading whatever state the listeners keep.
-/

set_option autoImplicit false

namespace RpcFlow

/-- A listener's interest: the responses of a method, and the header names, none for all. -/
structure Registration where
  token : Nat
  method : String
  names : List String
  listener : String
  deriving DecidableEq, Repr

/-- Is the listener interested in this header of this method? -/
def Registration.accepts (r : Registration) (method name : String) : Bool :=
  r.method == method && (r.names.isEmpty || r.names.contains name)

/-- The registrations, in order, and the tokens that have been cancelled. -/
structure HeaderBoard where
  registrations : List Registration
  cancelled : List Nat
  fresh : Nat
  deriving DecidableEq, Repr, Inhabited

/-- One call of a listener. -/
structure HeaderCall where
  listener : String
  token : Nat
  method : String
  name : String
  value : String
  deriving DecidableEq, Repr

namespace HeaderBoard

def empty : HeaderBoard := ⟨[], [], 0⟩

def isCancelled (b : HeaderBoard) (token : Nat) : Bool := b.cancelled.contains token

/-- Forgets the cancelled registrations. -/
def prune (b : HeaderBoard) : HeaderBoard :=
  { b with registrations := b.registrations.filter fun r => !b.isCancelled r.token }

/-- Adds a registration under a fresh token. -/
def register (b : HeaderBoard) (method listener : String) (names : List String) :
    Nat × HeaderBoard :=
  let b := b.prune
  (b.fresh,
    { b with
      registrations := b.registrations ++ [⟨b.fresh, method, names, listener⟩]
      fresh := b.fresh + 1 })

/-- Cancels a registration. -/
def cancel (b : HeaderBoard) (token : Nat) : HeaderBoard :=
  { b with cancelled := token :: b.cancelled }

/-- The number of registrations that are not cancelled. -/
def size (b : HeaderBoard) : Nat := b.registrations.countP fun r => !b.isCancelled r.token

/-- The calls that a response of `method` with these headers leads to. -/
def deliveries (b : HeaderBoard) (method : String) (headers : Dict String) : List HeaderCall :=
  b.registrations.flatMap fun r =>
    if b.isCancelled r.token then []
    else (headers.filter fun h => r.accepts method h.1).map fun h =>
      ⟨r.listener, r.token, method, h.1, h.2⟩

/-- Makes the calls of a response, in order. -/
def propagate {σ : Type} (b : HeaderBoard) (method : String) (headers : Dict String)
    (call : HeaderCall → HeaderBoard × σ → HeaderBoard × σ) (s : σ) : HeaderBoard × σ :=
  (b.deliveries method headers).foldl (fun t c => call c t) (b.prune, s)

end HeaderBoard
end RpcFlow
