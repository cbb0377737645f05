import RpcFlow.Yaml.Token

/-!
# YAML documents

A document is a tree of scalars, sequences and mappings.  What is left out, such as the value of a
key without one, is the empty plain scalar.

* `Node.ofTokens` builds the one document of a text from its tokens.
* `Node.read` does both steps.
-/

set_option autoImplicit false

namespace RpcFlow
namespace Yaml

/-- A YAML tree. -/
inductive Node where
  | scalar (plain : Bool) (text : String)
  | sequence (items : List Node)
  | mapping (entries : List (Node × Node))
  deriving Repr

namespace Node

/-- What stands for a node that is left out. -/
def absent : Node := scalar true ""

/-- A node, or several, and the tokens after it. -/
abbrev Parses (α : Type) := Option (α × List Token)

mutual

/-- A node; a sequence without indentation may start where `flush` holds. -/
def parse : Nat → Bool → List Token → Parses Node
  | 0, _, _ => none
  | fuel + 1, flush, tokens =>
    match tokens with
    | .scalar plain text :: rest => some (scalar plain text, rest)
    | .flowSequence :: rest => (flowItems fuel true [] rest).map fun (xs, r) => (sequence xs, r)
    | .flowMapping :: rest => (flowEntries fuel true [] rest).map fun (es, r) => (mapping es, r)
    | .blockSequence :: rest => (blockItems fuel [] rest).map fun (xs, r) => (sequence xs, r)
    | .blockMapping :: rest => (blockEntries fuel [] rest).map fun (es, r) => (mapping es, r)
    | .item :: _ =>
      if flush then (flushItems fuel [] tokens).map fun (xs, r) => (sequence xs, r) else none
    | _ => none

/-- A node, unless one of the tokens `ends` is next. -/
def parseUnless : Nat → Bool → List Token → List Token → Parses Node
  | 0, _, _, _ => none
  | fuel + 1, flush, ends, tokens =>
    match tokens with
    | [] => none
    | t :: _ => if ends.contains t then some (absent, tokens) else parse fuel flush tokens

/-- The items of a block sequence up to its end; `done` holds those so far, the last one first. -/
def blockItems : Nat → List Node → List Token → Parses (List Node)
  | 0, _, _ => none
  | fuel + 1, done, tokens =>
    match tokens with
    | .blockEnd :: rest => some (done.reverse, rest)
    | .item :: rest =>
      match parseUnless fuel false [.item, .blockEnd] rest with
      | none => none
      | some (x, rest) => blockItems fuel (x :: done) rest
    | _ => none

/-- The items of a sequence that is not indented below its key. -/
def flushItems : Nat → List Node → List Token → Parses (List Node)
  | 0, _, _ => none
  | fuel + 1, done, tokens =>
    match tokens with
    | .item :: rest =>
      match parseUnless fuel false [.item, .key, .value, .blockEnd] rest with
      | none => none
      | some (x, rest) => flushItems fuel (x :: done) rest
    | _ => some (done.reverse, tokens)

/-- The entries of a block mapping up to its end. -/
def blockEntries : Nat → List (Node × Node) → List Token → Parses (List (Node × Node))
  | 0, _, _ => none
  | fuel + 1, done, tokens =>
    let ends := [Token.key, .value, .blockEnd]
    match tokens with
    | .blockEnd :: rest => some (done.reverse, rest)
    | .key :: rest =>
      match parseUnless fuel true ends rest with
      | none => none
      | some (k, .value :: rest) =>
        match parseUnless fuel true ends rest with
        | none => none
        | some (v, rest) => blockEntries fuel ((k, v) :: done) rest
      | some (k, rest) => blockEntries fuel ((k, absent) :: done) rest
    | .value :: rest =>
      match parseUnless fuel true ends rest with
      | none => none
      | some (v, rest) => blockEntries fuel ((absent, v) :: done) rest
    | _ => none

/-- The value of a key in a flow collection, which ends at one of the tokens `ends`. -/
def flowValue : Nat → List Token → List Token → Parses Node
  | 0, _, _ => none
  | fuel + 1, ends, tokens =>
    match tokens with
    | .value :: rest => parseUnless fuel false ends rest
    | _ => some (absent, tokens)

/-- The items of a flow sequence; an item may be a mapping with one entry. -/
def flowItems : Nat → Bool → List Node → List Token → Parses (List Node)
  | 0, _, _, _ => none
  | fuel + 1, first, done, tokens =>
    let start :=
      match first, tokens with
      | false, .comma :: rest => some rest
      | false, .flowSequenceEnd :: _ => some tokens
      | false, _ => none
      | true, _ => some tokens
    match start with
    | none => none
    | some (.flowSequenceEnd :: rest) => some (done.reverse, rest)
    | some (.key :: rest) =>
      match parseUnless fuel false [.value, .comma, .flowSequenceEnd] rest with
      | none => none
      | some (k, rest) =>
        match flowValue fuel [.comma, .flowSequenceEnd] rest with
        | none => none
        | some (v, rest) => flowItems fuel false (mapping [(k, v)] :: done) rest
    | some rest =>
      match parse fuel false rest with
      | none => none
      | some (x, rest) => flowItems fuel false (x :: done) rest

/-- The entries of a flow mapping; an entry may be a key alone. -/
def flowEntries : Nat → Bool → List (Node × Node) → List Token → Parses (List (Node × Node))
  | 0, _, _, _ => none
  | fuel + 1, first, done, tokens =>
    let start :=
      match first, tokens with
      | false, .comma :: rest => some rest
      | false, .flowMappingEnd :: _ => some tokens
      | false, _ => none
      | true, _ => some tokens
    match start with
    | none => none
    | some (.flowMappingEnd :: rest) => some (done.reverse, rest)
    | some (.key :: rest) =>
      match parseUnless fuel false [.value, .comma, .flowMappingEnd] rest with
      | none => none
      | some (k, rest) =>
        match flowValue fuel [.comma, .flowMappingEnd] rest with
        | none => none
        | some (v, rest) => flowEntries fuel false ((k, v) :: done) rest
    | some rest =>
      match parse fuel false rest with
      | none => none
      | some (k, rest) => flowEntries fuel false ((k, absent) :: done) rest

end

/-- The only document of a list of tokens; no tokens are a document that is left out. -/
def ofTokens (tokens : List Token) : Option Node := do
  let fuel := 2 * tokens.length + 2
  let (node, rest) ←
    match tokens with
    | [] => some (absent, [])
    | [.documentStart] => some (absent, [])
    | .documentStart :: rest => parseUnless fuel false [.documentStart, .documentEnd] rest
    | _ => parse fuel false tokens
  if rest.all (· == .documentEnd) then some node else none

/-- The document of a text. -/
def read (text : String) : Option Node := (Token.scan text).bind ofTokens

end Node
end Yaml
end RpcFlow
