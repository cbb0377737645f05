import RpcFlow.Document
import RpcFlow.Number.Decimal
import RpcFlow.Yaml.Node

/-!
# The shapes of YAML trees

What a scalar stands for depends on what is asked for: any scalar is a text, while numbers, truth
values and null must be written without quotes.  A node that is left out is also an empty list, map
or record.

* `intOf?` reads integers: decimal ones without leading zeros, and those after `0x`, `0o` and `0b`.
* `Node.json?` is the JSON value of a tree: the one place where the text alone decides.
-/

set_option autoImplicit false

namespace RpcFlow
namespace Yaml

/-! ## Plain scalars -/

/-- The words for null, apart from nothing at all. -/
def nullWords : List String := ["null", "Null", "NULL", "~"]

/-- A truth value. -/
def boolOf? (text : String) : Option Bool :=
  if ["true", "True", "TRUE"].contains text then some true
  else if ["false", "False", "FALSE"].contains text then some false
  else none

/-- An integer without a sign. -/
def natOf? : List Char → Option Nat
  | '0' :: 'x' :: digits => natOfDigits? 16 digits
  | '0' :: 'o' :: digits => natOfDigits? 8 digits
  | '0' :: 'b' :: digits => natOfDigits? 2 digits
  | ['0'] => some 0
  | '0' :: _ => none
  | digits => natOfDigits? 10 digits

/-- An integer. -/
def intOf? (text : String) : Option Int :=
  let (negative, body) := splitSign text.toList
  (natOf? body).map fun n => if negative then -(n : Int) else n

/-- Digits that start with a zero, which are a text and no number. -/
def isPadded (text : String) : Bool :=
  let (_, body) := splitSign text.toList
  1 < body.length && body.head? == some '0' && body.all Char.isDigit

/-- The texts for infinities and for what is not a number. -/
def endlessWords : List String :=
  [".inf", ".Inf", ".INF", "+.inf", "+.Inf", "+.INF", "-.inf", "-.Inf", "-.INF", ".nan", ".NaN",
    ".NAN"]

/-- The JSON value of a plain scalar; an integer of more than 64 bits that fits 128 has none. -/
def jsonOf? (text : String) : Option Json :=
  if text.isEmpty || nullWords.contains text then some .null
  else
    match boolOf? text, intOf? text with
    | some b, _ => some (.bool b)
    | none, some n =>
      if minSigned 64 ≤ n ∧ n ≤ maxUnsigned 64 then some (.int n)
      else if minSigned 128 ≤ n ∧ n ≤ maxUnsigned 128 then none
      else some (((Binary64.ofDecimalText? text.toList).map Json.float).getD (.str text))
    | none, none =>
      if endlessWords.contains text then some .null
      else if isPadded text then some (.str text)
      else some (((Binary64.ofDecimalText? text.toList).map Json.float).getD (.str text))

/-! ## Trees -/

namespace Node

/-- Is a node left out? -/
def isAbsent : Node → Bool
  | scalar true text => text.isEmpty
  | _ => false

def isNothing : Node → Bool
  | scalar true text => text.isEmpty || nullWords.contains text
  | _ => false

def text? : Node → Option String
  | scalar _ text => some text
  | _ => none

def bool? : Node → Option Bool
  | scalar true text => boolOf? text
  | _ => none

def word? : Node → Option Nat
  | scalar true text =>
    (intOf? text).bind fun n => if 0 ≤ n ∧ n ≤ maxUnsigned 64 then some n.toNat else none
  | _ => none

def items? : Node → Option (List Node)
  | sequence items => some items
  | node => if node.isAbsent then some [] else none

def members? : Node → Option (List (String × Node))
  | mapping entries => entries.mapM fun e => e.1.text?.map fun key => (key, e.2)
  | node => if node.isAbsent then some [] else none

mutual

/-- The JSON value of a tree; keys must be scalars, and the last value of a key counts. -/
def json? : Node → Option Json
  | scalar true text => jsonOf? text
  | scalar false text => some (.str text)
  | sequence items => (jsonItems? items).map .arr
  | mapping entries => (jsonEntries? entries).map fun es => .obj (Dict.ofEntries es)

def jsonItems? : List Node → Option (List Json)
  | [] => some []
  | x :: rest => do return (← json? x) :: (← jsonItems? rest)

def jsonEntries? : List (Node × Node) → Option (List (String × Json))
  | [] => some []
  | (k, v) :: rest => do return (← k.text?, ← json? v) :: (← jsonEntries? rest)

end

mutual

/-- Do sequences and mappings nest `limit` deep at most? -/
def nestsWithin : Nat → Node → Bool
  | _, scalar .. => true
  | 0, _ => false
  | limit + 1, sequence items => itemsNestWithin limit items
  | limit + 1, mapping entries => entriesNestWithin limit entries

def itemsNestWithin : Nat → List Node → Bool
  | _, [] => true
  | limit, x :: rest => nestsWithin limit x && itemsNestWithin limit rest

def entriesNestWithin : Nat → List (Node × Node) → Bool
  | _, [] => true
  | limit, (k, v) :: rest =>
    nestsWithin limit k && nestsWithin limit v && entriesNestWithin limit rest

end

/-- How deep a document may nest. -/
def maxDepth : Nat := 128

/-- The document of a text, if it does not nest too deep. -/
def document? (text : String) : Option Node := do
  let node ← read text
  if node.nestsWithin maxDepth then some node else none

end Node

instance : Document Node where
  text? := Node.text?
  word? := Node.word?
  bool? := Node.bool?
  isNothing := Node.isNothing
  items? := Node.items?
  members? := Node.members?
  fields? node := node.members?.map .named
  name? := Node.text?
  json? := Node.json?

end Yaml
end RpcFlow
