import RpcFlow.Json.Basic

/-!
# Documents

What a configuration is read from: a tree in some notation, seen through the shapes that a reader
asks for.  A notation decides for each tree whether it is a text, a number, a list, a record.

* `Document` lists the shapes.
* `Fields` are the fields of a record, by name or in the order of their declaration, and
  `Fields.required`, `Fields.optional` and `Fields.withDefault` read one of them.
-/

set_option autoImplicit false

namespace RpcFlow

/-- The fields of a record. -/
inductive Fields (α : Type) where
  | named (entries : List (String × α))
  | listed (items : List α)

/-- A notation of trees; a shape that a tree does not have is `none`. -/
class Document (α : Type) where
  text? : α → Option String
  /-- A natural number of 64 bits. -/
  word? : α → Option Nat
  bool? : α → Option Bool
  /-- Does the tree stand for nothing at all? -/
  isNothing : α → Bool
  items? : α → Option (List α)
  /-- A map, whose keys may repeat. -/
  members? : α → Option (List (String × α))
  fields? : α → Option (Fields α)
  /-- One of several names. -/
  name? : α → Option String
  json? : α → Option Json

namespace Document

variable {α : Type} [Document α]

/-- A list of trees of one shape. -/
def list? {β : Type} (read : α → Option β) (x : α) : Option (List β) := do
  (← items? x).mapM read

/-- A map to trees of one shape; of a repeated key the last value counts. -/
def dict? {β : Type} (read : α → Option β) (x : α) : Option (Dict β) := do
  let entries ← (← members? x).mapM fun e => do return (e.1, ← read e.2)
  return Dict.ofEntries entries

/-- A map to JSON values. -/
def jsonDict? (x : α) : Option (Dict Json) := dict? json? x

/-- A value among named ones. -/
def variant? {β : Type} (known : List (String × β)) (x : α) : Option β := do
  known.lookup (← name? x)

end Document

namespace Fields

variable {α β : Type}

/-- The field at a place of the declaration, if it is there; a name must not repeat. -/
def at? (f : Fields α) (place : Nat) (name : String) : Option (Option α) :=
  match f with
  | listed items => some items[place]?
  | named entries =>
    match entries.filter (·.1 == name) with
    | [] => some none
    | [e] => some (some e.2)
    | _ => none

/-- A field that must be there. -/
def required (f : Fields α) (place : Nat) (name : String) (read : α → Option β) : Option β := do
  read (← (← f.at? place name))

/-- A field that has a value when it is not there. -/
def withDefault (f : Fields α) (place : Nat) (name : String) (read : α → Option β)
    (fallback : β) : Option β := do
  match ← f.at? place name with
  | none => some fallback
  | some x => read x

/-- A field that may stand for nothing.  Among named fields it may be left out. -/
def optional [Document α] (f : Fields α) (place : Nat) (name : String) (read : α → Option β) :
    Option (Option β) := do
  match f, ← f.at? place name with
  | named _, none => some none
  | listed _, none => none
  | _, some x => if Document.isNothing x then some none else (read x).map some

end Fields
end RpcFlow
