import RpcFlow.Document

/-!
# TOML trees

The values of a TOML document, and how the tables of a document grow line by line.

* A table remembers its `Origin`, since that decides how it may still be extended: a header may open
  an implied table once, a dotted key may only extend tables that dotted keys have made, and a table
  written between braces is complete.
* `Tree.bind` adds a value under a dotted key, `Tree.open` and `Tree.openRow` follow a header.
* Repeated keys and headers are refused.
-/

set_option autoImplicit false

namespace RpcFlow
namespace Toml

/-- How a table came about. -/
inductive Origin where
  /-- By its own header. -/
  | header
  /-- On the way to the table of a longer header. -/
  | implied
  /-- On the way to the last part of a dotted key. -/
  | dotted
  /-- Between braces. -/
  | inline
  deriving DecidableEq, Repr

/-- A TOML value. -/
inductive Tree where
  | text (s : String)
  | integer (n : Int)
  | number (x : Binary64)
  /-- An infinity, or what is not a number. -/
  | endless
  | flag (b : Bool)
  | array (items : List Tree)
  | table (origin : Origin) (entries : List (String × Tree))
  /-- Tables under repeated headers, the last one last. -/
  | rows (tables : List Tree)
  deriving Repr

/-- A dotted key: what leads to it and its last part. -/
structure Key where
  path : List String
  name : String
  deriving DecidableEq, Repr

namespace Tree

/-- Adds a value under a key whose path leads through tables of dotted keys. -/
def bindAt (name : String) (value : Tree) : List String → Dict Tree → Option (Dict Tree)
  | [], entries =>
    if (Dict.at? entries name).isSome then none else some (Dict.put entries name value)
  | part :: path, entries =>
    match Dict.at? entries part with
    | none =>
      (bindAt name value path []).map fun inner => Dict.put entries part (table .dotted inner)
    | some (table origin inner) =>
      if origin = .dotted ∨ (origin = .implied ∧ path ≠ []) then
        (bindAt name value path inner).map fun inner => Dict.put entries part (table origin inner)
      else none
    | some _ => none

/-- Adds a value under a dotted key. -/
def bind (entries : Dict Tree) (key : Key) (value : Tree) : Option (Dict Tree) :=
  bindAt key.name value key.path entries

/-- Changes the table that a header leads to; tables on the way are implied, and of rows the last
one counts. -/
def within (change : Dict Tree → Option (Dict Tree)) : List String → Dict Tree → Option (Dict Tree)
  | [], entries => change entries
  | part :: path, entries =>
    match Dict.at? entries part with
    | none => (within change path []).map fun inner => Dict.put entries part (table .implied inner)
    | some (table origin inner) =>
      if origin = .inline then none
      else
        (within change path inner).map fun inner => Dict.put entries part (table origin inner)
    | some (rows tables) =>
      match tables.getLast? with
      | some (table origin inner) =>
        (within change path inner).map fun inner =>
          Dict.put entries part (rows (tables.dropLast ++ [table origin inner]))
      | _ => none
    | some _ => none

/-- Opens the table of a header. -/
def openTable (root : Dict Tree) (key : Key) : Option (Dict Tree) :=
  within
    (fun entries =>
      match Dict.at? entries key.name with
      | none => some (Dict.put entries key.name (table .header []))
      | some (table .implied inner) => some (Dict.put entries key.name (table .header inner))
      | some _ => none)
    key.path root

/-- Opens one more table of a repeated header. -/
def openRow (root : Dict Tree) (key : Key) : Option (Dict Tree) :=
  within
    (fun entries =>
      match Dict.at? entries key.name with
      | none => some (Dict.put entries key.name (rows [table .header []]))
      | some (rows tables) =>
        some (Dict.put entries key.name (rows (tables ++ [table .header []])))
      | some _ => none)
    key.path root

end Tree

/-- A line of a document. -/
inductive Statement where
  | header (key : Key)
  | row (key : Key)
  | assign (key : Key) (value : Tree)
  deriving Repr

/-- The path of the table a key names. -/
def Key.full (k : Key) : List String := k.path ++ [k.name]

/-- A document as far as it has been built: its root, and the path of the table that is open. -/
structure Growing where
  root : Dict Tree
  current : List String

/-- Carries out a line. -/
def Growing.add (g : Growing) : Statement → Option Growing
  | .header key => (Tree.openTable g.root key).map fun root => ⟨root, key.full⟩
  | .row key => (Tree.openRow g.root key).map fun root => ⟨root, key.full⟩
  | .assign key value =>
    (Tree.within (fun entries => Tree.bind entries key value) g.current g.root).map fun root =>
      { g with root }

/-- The document of a list of lines. -/
def Tree.ofStatements (lines : List Statement) : Option Tree :=
  (lines.foldlM Growing.add ⟨[], []⟩).map fun g => table .header g.root

/-! ## The shapes of TOML trees -/

namespace Tree

def text? : Tree → Option String
  | text s => some s
  | _ => none

def word? : Tree → Option Nat
  | integer n => if 0 ≤ n ∧ n ≤ maxUnsigned 64 then some n.toNat else none
  | _ => none

def bool? : Tree → Option Bool
  | flag b => some b
  | _ => none

def items? : Tree → Option (List Tree)
  | array items => some items
  | rows tables => some tables
  | _ => none

def members? : Tree → Option (Dict Tree)
  | table _ entries => some entries
  | _ => none

/-- The fields of a table by name, those of an array in order. -/
def fields? (t : Tree) : Option (Fields Tree) :=
  match t.members?, t.items? with
  | some entries, _ => some (.named entries)
  | none, some items => some (.listed items)
  | none, none => none

/-- Is there nothing in a table or an array? -/
def isEmpty : Tree → Bool
  | array items => items.isEmpty
  | rows tables => tables.isEmpty
  | table _ entries => entries.isEmpty
  | _ => false

/-- A name, as a text or as the only key of a table with nothing under it. -/
def name? : Tree → Option String
  | text s => some s
  | table _ [(name, content)] => if content.isEmpty then some name else none
  | _ => none

mutual

/-- The JSON value of a tree. -/
def json : Tree → Json
  | text s => .str s
  | integer n => .int n
  | number x => .float x
  | endless => .null
  | flag b => .bool b
  | array items => .arr (jsonItems items)
  | table _ entries => .obj (jsonEntries entries)
  | rows tables => .arr (jsonItems tables)

def jsonItems : List Tree → List Json
  | [] => []
  | x :: rest => json x :: jsonItems rest

def jsonEntries : List (String × Tree) → List (String × Json)
  | [] => []
  | (key, x) :: rest => (key, json x) :: jsonEntries rest

end

end Tree

instance : Document Tree where
  text? := Tree.text?
  word? := Tree.word?
  bool? := Tree.bool?
  isNothing _ := false
  items? := Tree.items?
  members? := Tree.members?
  fields? := Tree.fields?
  name? := Tree.name?
  json? t := some t.json

end Toml
end RpcFlow
