import RpcFlow.Json.Reader
import RpcFlow.Request.Basic
import RpcFlow.Wire.Basic

/-!
# Transports that need no network

Transports that answer by themselves, for trying things out: one echoes the parameters of every
request, one always answers the same, some fail, and one plays a script.

* `Transport.call` answers a call after a delay and keeps count.
* `Script.fill` puts request ids into a scripted body.
-/

set_option autoImplicit false

namespace RpcFlow

/-- The number of requests in the body of a call. -/
def WireCall.batchSize (c : WireCall) : Nat :=
  match c.body with
  | none => 0
  | some text =>
    match Json.read text with
    | .ok (.arr items) => items.length
    | _ => 1

/-- The text of the id of the `k`-th request of a call, null if there is none. -/
def WireCall.idText (c : WireCall) (k : Nat) : String :=
  let requests : List Json :=
    match c.body.map Json.read with
    | some (.ok (.arr items)) => items
    | some (.ok single) => [single]
    | _ => []
  ((requests[k]?.bind fun r => r.get? "id").getD .null).render

/-! ## Scripts -/

/-- What a scripted call leads to. -/
inductive Play where
  | panic (message : String)
  | io (message : String)
  | http (code : Nat) (body : Option String)
  | respond (body : String) (headers : Dict String)
  deriving DecidableEq, Repr

/-- One line of a script. -/
structure ScriptEntry where
  delay : Duration
  play : Play
  deriving DecidableEq, Repr

namespace Script

/-- The digits at the front of a text, as a number, and the rest. -/
def takeNat (s : List Char) : Option (Nat × List Char) :=
  let digits := s.takeWhile Char.isDigit
  if digits.isEmpty then none
  else
    some (digits.foldl (fun n c => n * 10 + (c.toNat - '0'.toNat)) 0, s.dropWhile Char.isDigit)

/-- A placeholder at the front of a text: two braces, a sign, a number, two braces.  Answers what
it stands for and the rest of the text. -/
def placeholder? (call : WireCall) : List Char → Option (String × List Char)
  | '\x7b' :: '\x7b' :: sign :: rest =>
    match takeNat rest with
    | some (n, '\x7d' :: '\x7d' :: tail) =>
      if sign = '@' then some (call.idText n, tail)
      else if sign = '#' then some (toString n, tail)
      else none
    | _ => none
  | _ => none

/-- Replaces the placeholders of a text, reading at most `fuel` characters. -/
def fillChars (call : WireCall) : Nat → List Char → List Char
  | 0, s => s
  | _, [] => []
  | fuel + 1, c :: rest =>
    match placeholder? call (c :: rest) with
    | some (text, tail) => text.toList ++ fillChars call fuel tail
    | none => c :: fillChars call fuel rest

/-- Replaces the placeholders of a body. -/
def fill (call : WireCall) (body : String) : String :=
  String.ofList (fillChars call body.length body.toList)

end Script

/-! ## Kinds of transports -/

/-- How a transport answers. -/
inductive TransportKind where
  /-- Sends the parameters of every request back. -/
  | echo (headers : Dict String) (delay : Duration)
  /-- Always answers the same body. -/
  | fixed (body : String)
  /-- Refuses every connection. -/
  | failingIo
  /-- Answers every call with a status. -/
  | failingHttp (code : Nat)
  /-- Drops the first calls, then echoes. -/
  | flaky (failures : Nat)
  /-- Plays a script; the last entry repeats. -/
  | script (entries : List ScriptEntry)
  deriving DecidableEq, Repr

/-- A transport with the calls it has recorded. -/
structure Transport where
  kind : TransportKind
  /-- Calls received so far, recorded or not. -/
  received : Nat
  /-- Recorded calls, in order. -/
  recorded : List WireCall
  deriving DecidableEq, Repr

/-- What a transport does with a call. -/
structure Reaction where
  delay : Duration
  outcome : WireOutcome
  deriving DecidableEq, Repr

namespace Transport

/-- A transport that has not been called. -/
def ofKind (kind : TransportKind) : Transport := ⟨kind, 0, []⟩

/-- The echo of one request: its parameters, or its method if it has none. -/
def echoOf (request : Json) : Json :=
  let result := ((request.get? "params").or (request.get? "method")).getD .null
  Json.object
    [("id", (request.get? "id").getD .null), ("jsonrpc", .str "2.0"), ("result", result)]

/-- The echo of a call: of every request of a batch, or of the query of a call without a body. -/
def echo (headers : Dict String) (call : WireCall) : WireOutcome :=
  let respond (body : Json) : WireOutcome := .answered ⟨body.render, headers⟩
  match call.body with
  | none => respond (Json.object [("result", Json.ofStrings call.query)])
  | some text =>
    match Json.read text with
    | .ok (.arr items) => respond (.arr (items.map echoOf))
    | .ok request => respond (echoOf request)
    | .error e => .failed (.http 400 (some e.message))

/-- What an entry of a script does. -/
def play (call : WireCall) : Play → WireOutcome
  | .panic message => .crashed message
  | .io message => .failed (.io message)
  | .http code body => .failed (.http code body)
  | .respond body headers => .answered ⟨Script.fill call body, headers⟩

/-- The entry of a script for its `n`-th call. -/
def entryAt? (entries : List ScriptEntry) (n : Nat) : Option ScriptEntry :=
  entries[n]?.or entries.getLast?

/-- Is this call kept in the record?  A dropped call is not. -/
def records (t : Transport) : Bool :=
  match t.kind with
  | .flaky failures => failures ≤ t.received
  | _ => true

/-- How the transport reacts to its next call. -/
def react (t : Transport) (call : WireCall) : Reaction :=
  let atOnce := Duration.ofMillis 0
  match t.kind with
  | .echo headers delay => ⟨delay, echo headers call⟩
  | .fixed body => ⟨atOnce, .answered ⟨body, []⟩⟩
  | .failingIo => ⟨atOnce, .failed (.io "connection refused")⟩
  | .failingHttp code => ⟨atOnce, .failed (.http code (some ("status " ++ toString code)))⟩
  | .flaky failures =>
    if t.received < failures then ⟨atOnce, .failed (.io "connection reset")⟩
    else ⟨atOnce, echo [] call⟩
  | .script entries =>
    match entryAt? entries t.received with
    | some e => ⟨e.delay, play call e.play⟩
    | none => ⟨atOnce, .answered ⟨"", []⟩⟩

/-- Takes a call. -/
def call (t : Transport) (c : WireCall) : Reaction × Transport :=
  (t.react c,
    { t with
      received := t.received + 1
      recorded := if t.records then t.recorded ++ [c] else t.recorded })

end Transport
end RpcFlow
