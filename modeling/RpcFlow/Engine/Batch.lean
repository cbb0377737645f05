import RpcFlow.Engine.Task
import RpcFlow.Wire.Basic

/-!
# Planning a wire call

When a window of the network stage ends, some of its tasks are sent together and the rest waits for
the next window.  Three rules sort them out, each a function from the tasks in order of arrival to
those kept and those put off:

* `Batch.splitByTransport` keeps the tasks of the transport with the most tasks, the earliest such;
* `Batch.fitSize` keeps as many as every kept task allows on one call;
* `Batch.mergeHeaders` puts off a task whose headers disagree with those of the tasks kept before.

`Batch.entriesById` then matches the entries of the answer to the requests.
-/

set_option autoImplicit false

namespace RpcFlow
namespace Batch

/-! ## One transport -/

/-- Puts a promise into the group of its transport, or starts a group. -/
def addToGroup (groups : List (List Promise)) (p : Promise) : List (List Promise) :=
  match groups with
  | [] => [[p]]
  | group :: rest =>
    if group.head?.any fun q => q.descriptor.transport == p.descriptor.transport then
      (group ++ [p]) :: rest
    else group :: addToGroup rest p

/-- The tasks of each transport, in order of first appearance. -/
def groups (promises : List Promise) : List (List Promise) := promises.foldl addToGroup []

/-- The number of the largest group, the first of several. -/
def largest (groups : List (List Promise)) : Nat :=
  let sizes := groups.map List.length
  sizes.findIdx fun n => sizes.all (· ≤ n)

/-- The tasks of the largest group, and the others group by group. -/
def splitByTransport (promises : List Promise) : List Promise × List Promise :=
  let gs := groups promises
  let i := largest gs
  (gs[i]?.getD [], (gs.eraseIdx i).flatten)

/-! ## One size -/

/-- A walk in order of arrival: what is taken, what is put off, and the least limit of what is
taken, if anything is. -/
structure Fit where
  taken : List Promise
  deferred : List Promise
  cap : Option Nat

/-- Takes a promise if neither the limit so far nor its own is reached. -/
def Fit.add (f : Fit) (p : Promise) : Fit :=
  let limit := p.descriptor.maxBatchSize
  if f.cap.all (f.taken.length < ·) && f.taken.length < limit then
    { f with taken := f.taken ++ [p], cap := some ((f.cap.map (min limit)).getD limit) }
  else { f with deferred := f.deferred ++ [p] }

/-- The tasks that fit on one call, cut to the limit of the first, and the others. -/
def fitSize (promises : List Promise) : List Promise × List Promise :=
  let f := promises.foldl Fit.add ⟨[], [], none⟩
  let limit := (f.taken.head?.map fun p => p.descriptor.maxBatchSize).getD 0
  (f.taken.take limit, f.deferred ++ f.taken.drop limit)

/-! ## One set of headers -/

/-- A walk in order of arrival: what is kept with its headers, and what disagrees. -/
structure Merge where
  kept : List Promise
  headers : Dict String
  conflicting : List Promise

/-- Do the headers of a task give some name another value? -/
def conflicts (merged headers : Dict String) : Bool :=
  headers.any fun h => (Dict.at? merged h.1).any (· != h.2)

/-- Keeps a promise whose headers agree. -/
def Merge.add (m : Merge) (p : Promise) : Merge :=
  if conflicts m.headers p.descriptor.headers then
    { m with conflicting := m.conflicting ++ [p] }
  else
    { m with
      kept := m.kept ++ [p]
      headers := Dict.overlay m.headers p.descriptor.headers }

/-- The tasks whose headers agree, those headers, and the others. -/
def mergeHeaders (promises : List Promise) : Merge := promises.foldl Merge.add ⟨[], [], []⟩

/-! ## The combined call -/

/-- The names of the methods of some tasks. -/
def methods (promises : List Promise) : String :=
  ",".intercalate (promises.map fun p => p.descriptor.method)

/-- The call for several tasks. -/
def combinedCall (promises : List Promise) (headers : Dict String) : WireCall where
  body := some ("[" ++ ",".intercalate (promises.map fun p => p.descriptor.flat) ++ "]")
  headers
  query := [(methodQuery, methods promises)]

/-- The call for one task: its body goes along unless the task only asks. -/
def singleCall (p : Promise) : WireCall where
  body :=
    match p.descriptor.http with
    | .get => none
    | .post => some p.descriptor.flat
  headers := p.descriptor.headers
  query := p.descriptor.query

/-! ## Matching the answer -/

/-- The id of an entry of an answer, if it is a number that an id can be. -/
def entryId? (entry : Json) : Option Nat := (entry.get? "id").bind Json.nat?

/-- Entries by id. -/
abbrev Entries := List (Nat × Json)

/-- Binds an id to an entry, in place of an earlier one. -/
def bindEntry (entries : Entries) (id : Nat) (entry : Json) : Entries :=
  (id, entry) :: entries.filter fun e => e.1 != id

/-- The entries of an answer that have an id, the last for each. -/
def entriesById (answer : List Json) : Entries :=
  answer.foldl
    (fun entries entry =>
      match entryId? entry with
      | some id => bindEntry entries id entry
      | none => entries)
    []

/-- The entries of an answer without an id. -/
def strays (answer : List Json) : List Json := answer.filter fun entry => (entryId? entry).isNone

/-- Takes the entry with an id out of the entries. -/
def takeEntry (entries : Entries) (id : Nat) : Option Json × Entries :=
  (entries.lookup id, entries.filter fun e => e.1 != id)

end Batch
end RpcFlow
