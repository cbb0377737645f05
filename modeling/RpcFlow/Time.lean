import RpcFlow.Number.Word

/-!
# The clock

The clock counts whole milliseconds from zero.  Lengths of time are kept in nanoseconds, because a
reported length may be finer than the clock.

* `Duration.ticks` is the number of clock ticks that pass before a length of time has passed.
* `Moment.after?` is the moment a length of time from now; the clock has an end, and a length that
  runs past it has no such moment.
* `Duration.render` writes a length in the largest unit that is not below one, with all its digits.
-/

set_option autoImplicit false

namespace RpcFlow

/-- A reading of the clock, in milliseconds. -/
abbrev Moment := Nat

/-- A length of time, in nanoseconds. -/
structure Duration where
  nanos : Nat
  deriving DecidableEq, Repr, Inhabited

namespace Duration

/-- A length given in milliseconds. -/
def ofMillis (ms : Nat) : Duration := ⟨ms * 1000000⟩

/-- A length given in whole seconds and nanoseconds. -/
def ofParts (seconds nanos : Nat) : Duration := ⟨seconds * 1000000000 + nanos⟩

/-- The greatest length of time, used for "never". -/
def longest : Duration := ofParts (maxUnsigned 64) 999999999

/-- Whole milliseconds in a length of time. -/
def wholeMillis (d : Duration) : Nat := d.nanos / 1000000

/-- Clock ticks until a length of time has passed. -/
def ticks (d : Duration) : Nat := (d.nanos + 999999) / 1000000

/-- A fraction with `width` digits, without its trailing zeros; empty for zero. -/
def fraction (value width : Nat) : String :=
  let digits := (toString value).toList
  let padded := List.replicate (width - digits.length) '0' ++ digits
  let kept := (padded.reverse.dropWhile (· == '0')).reverse
  if kept.isEmpty then "" else "." ++ String.ofList kept

/-- The text of a length of time, as in `1.5s`, `120ms`, `3µs` and `0ns`. -/
def render (d : Duration) : String :=
  let seconds := d.nanos / 1000000000
  let rest := d.nanos % 1000000000
  if seconds > 0 then toString seconds ++ fraction rest 9 ++ "s"
  else if rest ≥ 1000000 then
    toString (rest / 1000000) ++ fraction (rest % 1000000) 6 ++ "ms"
  else if rest ≥ 1000 then toString (rest / 1000) ++ fraction (rest % 1000) 3 ++ "µs"
  else toString rest ++ "ns"

/-- A length of time is over with its last tick. -/
theorem lt_add_ticks_iff {start now : Nat} {d : Duration} :
    now < start + d.ticks ↔ (ofMillis now).nanos < (ofMillis start).nanos + d.nanos := by
  simp only [ofMillis, ticks]
  omega

end Duration

namespace Moment

/-- The last reading of the clock. -/
def horizon : Moment := wordCount 63 * 1000

/-- The moment a length of time after `now`, unless the clock ends before. -/
def after? (now : Moment) (d : Duration) : Option Moment :=
  if now + d.ticks ≤ horizon then some (now + d.ticks) else none

end Moment
end RpcFlow
