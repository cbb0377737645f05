import RpcFlow.Engine.Playbook
import RpcFlow.Engine.Fleet
import RpcFlow.TimedCache
import RpcFlow.Validator
import RpcFlow.Wire.Transport

/-!
# A world without a network

The outside world of engines that run on a bench: transports that answer by themselves, a record of
every call, and caches in memory.  `Facilities` are what one engine uses of it, and
`Facilities.environment` is the environment they make.
-/

set_option autoImplicit false

namespace RpcFlow

/-- A call as it was sent. -/
structure SentCall where
  moment : Moment
  transport : String
  call : WireCall
  deriving DecidableEq, Repr

/-- Transports by name, the calls so far, the latest first, and caches. -/
structure Bench where
  transports : Dict Transport
  sent : List SentCall
  caches : Array TimedCache

/-- What an engine uses of a bench: a codec, a validator and one of the caches, which may be made to
fail. -/
structure Facilities where
  codec : Codec
  validator : Validator
  cache : Nat
  readFault : Option CallError
  writeFault : Option CallError

namespace Bench

/-- The bench with these transports and one empty cache. -/
def ofTransports (kinds : Dict TransportKind) : Bench :=
  ⟨kinds.map fun e => (e.1, Transport.ofKind e.2), [], #[.empty]⟩

/-- Adds an empty cache. -/
def addCache (b : Bench) : Nat × Bench := (b.caches.size, { b with caches := b.caches.push .empty })

def cache (b : Bench) (index : Nat) : TimedCache := b.caches[index]?.getD .empty

def setCache (b : Bench) (index : Nat) (c : TimedCache) : Bench :=
  { b with caches := b.caches.setIfInBounds index c }

/-- Sends a call and keeps it in the record. -/
def fetch (now : Moment) (name : String) (call : WireCall) (b : Bench) :
    Duration × WireOutcome × Bench :=
  let b := { b with sent := ⟨now, name, call⟩ :: b.sent }
  match Dict.at? b.transports name with
  | none => (.ofMillis 0, .failed (.io "no such transport"), b)
  | some t =>
    let (r, t) := t.call call
    (r.delay, r.outcome, { b with transports := Dict.put b.transports name t })

end Bench

namespace Facilities

/-- The usual facilities, with one of the caches. -/
def usual (cache : Nat) : Facilities := ⟨.standard, .acceptAll, cache, none, none⟩

/-- The environment that facilities make. -/
def environment (f : Facilities) : Environment Bench where
  fetch := Bench.fetch
  readCache := fun now key b =>
    match f.readFault with
    | some error => (.failed error, b)
    | none =>
      let (value, c) := (b.cache f.cache).obtain now key
      (.done value, b.setCache f.cache c)
  writeCache := fun now key value lifetime b =>
    match f.writeFault with
    | some error => (.failed error, b)
    | none => (.done (), b.setCache f.cache ((b.cache f.cache).store now key value lifetime))
  decode := fun body type b => (.ofExcept (f.codec.decode body type), b)
  validate := fun value b => (.ofExcept (f.validator.validate value), b)

end Facilities
end RpcFlow
