/-!
# Subscriptions

A subscription can be cancelled from anywhere; several can be bundled and cancelled together.  A
bundle counts as cancelled when all its parts are, so an empty bundle always does.
-/

set_option autoImplicit false

namespace RpcFlow

/-- The subscriptions that have been cancelled, by number. -/
structure Cancellations where
  cancelled : List Nat
  deriving DecidableEq, Repr, Inhabited

namespace Cancellations

def none : Cancellations := ⟨[]⟩

def isCancelled (c : Cancellations) (subscription : Nat) : Bool :=
  c.cancelled.contains subscription

/-- Cancels one subscription. -/
def cancel (c : Cancellations) (subscription : Nat) : Cancellations :=
  if c.isCancelled subscription then c else ⟨subscription :: c.cancelled⟩

end Cancellations

/-- Subscriptions that are cancelled together. -/
structure Bundle where
  parts : List Nat
  deriving DecidableEq, Repr, Inhabited

namespace Bundle

def empty : Bundle := ⟨[]⟩

def add (b : Bundle) (subscription : Nat) : Bundle := ⟨b.parts ++ [subscription]⟩

def size (b : Bundle) : Nat := b.parts.length

/-- Cancels every part. -/
def cancel (b : Bundle) (c : Cancellations) : Cancellations := b.parts.foldl Cancellations.cancel c

/-- Are all parts cancelled? -/
def isCancelled (b : Bundle) (c : Cancellations) : Bool := b.parts.all c.isCancelled

end Bundle
end RpcFlow
