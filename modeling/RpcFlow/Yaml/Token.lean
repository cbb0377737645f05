import RpcFlow.Yaml.Scalar

/-!
# YAML tokens

A YAML text as a list of tokens in which indentation has become explicit: every block collection
has a start and an end, and every key of a mapping is announced before it.

* `Token.scan` takes a text apart.
* A `Scanner` is the state in between: the columns of the open block collections, and for the block
  level and every open flow collection the last token that could still turn out to be a key.

Anchors, tags and directives are not understood; a text with one of them is refused.
-/

set_option autoImplicit false

namespace RpcFlow
namespace Yaml

/-- A piece of a text; a scalar remembers whether it was written without quotes. -/
inductive Token where
  | documentStart
  | documentEnd
  | blockSequence
  | blockMapping
  | blockEnd
  | flowSequence
  | flowSequenceEnd
  | flowMapping
  | flowMappingEnd
  /-- The hyphen before an item. -/
  | item
  /-- The comma in a flow collection. -/
  | comma
  | key
  | value
  | scalar (plain : Bool) (text : String)
  deriving DecidableEq, Repr

/-- A token that is a key if a colon follows. -/
structure Candidate where
  /-- The number of tokens before it. -/
  tokens : Nat
  line : Nat
  column : Nat
  index : Nat
  /-- Must it be a key? -/
  required : Bool
  deriving Repr

/-- The state of taking a text apart. -/
structure Scanner where
  cursor : Cursor
  /-- One more than the column of the innermost block collection, or zero. -/
  level : Nat
  /-- The same for the collections around it. -/
  outerLevels : List Nat
  candidate : Option Candidate
  /-- The candidates outside each open flow collection, the innermost first. -/
  outerCandidates : List (Option Candidate)
  /-- May a key start here? -/
  keyAllowed : Bool
  tokens : Array Token

namespace Scanner

def start (c : Cursor) : Scanner := ⟨c, 0, [], none, [], true, #[]⟩

/-- Is a flow collection open? -/
def inFlow (s : Scanner) : Bool := !s.outerCandidates.isEmpty

def push (s : Scanner) (t : Token) : Scanner := { s with tokens := s.tokens.push t }

/-- Adds a token and goes on by some characters. -/
def take (s : Scanner) (count : Nat) (t : Token) : Scanner :=
  { s.push t with cursor := s.cursor.advance count }

/-- Adds a token in front of those that follow the first `index`. -/
def insert (s : Scanner) (index : Nat) (t : Token) : Scanner :=
  { s with tokens := s.tokens.insertIdxIfInBounds index t }

/-! ## Keys -/

/-- The longest distance between the start of a key and its colon. -/
def maxKeyLength : Nat := 1024

/-- Is it too late for a candidate?  A key stands on one line. -/
def isStale (s : Scanner) (k : Candidate) : Bool :=
  k.line < s.cursor.line || k.index + maxKeyLength < s.cursor.index

/-- Drops a candidate, unless it has to be a key. -/
def drop? (k : Option Candidate) : Option Unit :=
  match k with
  | some k => if k.required then none else some ()
  | none => some ()

/-- Drops the candidates it is too late for. -/
def dropStale (s : Scanner) : Option Scanner :=
  let keep (k : Option Candidate) : Option (Option Candidate) :=
    if k.any s.isStale then (drop? k).map fun _ => none else some k
  do
    let candidate ← keep s.candidate
    let outerCandidates ← s.outerCandidates.mapM keep
    return { s with candidate, outerCandidates }

/-- Gives up the current candidate. -/
def dropCandidate (s : Scanner) : Option Scanner :=
  (drop? s.candidate).map fun _ => { s with candidate := none }

/-- Makes the next token a candidate, where keys may start. -/
def propose (s : Scanner) : Option Scanner :=
  if s.keyAllowed then do
    let s ← s.dropCandidate
    let c := s.cursor
    let required := !s.inFlow && s.level == c.column + 1
    return { s with candidate := some ⟨s.tokens.size, c.line, c.column, c.index, required⟩ }
  else some s

/-! ## Indentation -/

/-- Opens a block collection at a column, in front of the tokens after the first `index`, unless one
is open there. -/
def indent (s : Scanner) (column index : Nat) (t : Token) : Scanner :=
  if !s.inFlow && s.level ≤ column then
    { s.insert index t with level := column + 1, outerLevels := s.level :: s.outerLevels }
  else s

/-- Closes collections until the innermost one is at `level` at most. -/
def unindent (level : Nat) : Nat → List Nat → Array Token → Nat × List Nat × Array Token
  | current, [], tokens => (current, [], tokens)
  | current, outer :: rest, tokens =>
    if level < current then unindent level outer rest (tokens.push .blockEnd)
    else (current, outer :: rest, tokens)

/-- Closes the block collections that a token at `level` does not belong to. -/
def closeTo (s : Scanner) (level : Nat) : Scanner :=
  if s.inFlow then s
  else
    let (level, outerLevels, tokens) := unindent level s.level s.outerLevels s.tokens
    { s with level, outerLevels, tokens }

/-! ## Tokens -/

/-- Skips blanks, comments and line breaks; a new line allows keys. -/
def skipGap : Nat → Scanner → Scanner
  | 0, s => s
  | fuel + 1, s =>
    let tabs := s.inFlow || !s.keyAllowed
    let c := s.cursor.skipWhile fun x => x = ' ' || (tabs && x = '\t')
    let c := if c.rest.head? == some '#' then c.skipWhile (!isBreak ·) else c
    if !c.rest.isEmpty && (c.rest.take 1).all isBreak then
      skipGap fuel { s with cursor := c.next, keyAllowed := s.keyAllowed || !s.inFlow }
    else { s with cursor := c }

/-- A marker between documents. -/
def marker (s : Scanner) (t : Token) : Option Scanner := do
  let s ← (s.closeTo 0).dropCandidate
  return { s with keyAllowed := false }.take 3 t

def openFlow (s : Scanner) (t : Token) : Option Scanner := do
  let s ← s.propose
  let outerCandidates := s.candidate :: s.outerCandidates
  return { s with outerCandidates, candidate := none, keyAllowed := true }.take 1 t

def closeFlow (s : Scanner) (t : Token) : Option Scanner := do
  let s ← s.dropCandidate
  let s :=
    match s.outerCandidates with
    | candidate :: outerCandidates => { s with candidate, outerCandidates }
    | [] => s
  return { s with keyAllowed := false }.take 1 t

def comma (s : Scanner) : Option Scanner := do
  let s ← s.dropCandidate
  return { s with keyAllowed := true }.take 1 .comma

/-- A hyphen before an item, which opens a sequence where none is open. -/
def item (s : Scanner) : Option Scanner :=
  if s.inFlow || s.keyAllowed then do
    let s ← (s.indent s.cursor.column s.tokens.size .blockSequence).dropCandidate
    return { s with keyAllowed := true }.take 1 .item
  else none

/-- A question mark before a key. -/
def markedKey (s : Scanner) : Option Scanner :=
  if s.inFlow || s.keyAllowed then do
    let s ← (s.indent s.cursor.column s.tokens.size .blockMapping).dropCandidate
    return { s with keyAllowed := !s.inFlow }.take 1 .key
  else none

/-- A colon: it makes the candidate a key, and opens a mapping where none is open. -/
def value (s : Scanner) : Option Scanner :=
  match s.candidate with
  | some k =>
    let s := (s.insert k.tokens .key).indent k.column k.tokens .blockMapping
    some ({ s with candidate := none, keyAllowed := false }.take 1 .value)
  | none =>
    if s.inFlow then some ({ s with keyAllowed := false }.take 1 .value)
    else if s.keyAllowed then
      let s := s.indent s.cursor.column s.tokens.size .blockMapping
      some ({ s with keyAllowed := true }.take 1 .value)
    else none

def quotedScalar (s : Scanner) (quote : Char) : Option Scanner := do
  let s ← s.propose
  let (text, cursor) ← quoted quote s.cursor.next
  return { s.push (.scalar false (String.ofList text)) with cursor, keyAllowed := false }

def blockScalar (s : Scanner) (keepLines : Bool) : Option Scanner := do
  let s ← s.dropCandidate
  let (text, cursor) ← block keepLines s.level s.cursor.next
  return { s.push (.scalar false (String.ofList text)) with cursor, keyAllowed := true }

def plainScalar (s : Scanner) : Option Scanner := do
  let s ← s.propose
  let (text, cursor, broken) ← plain s.inFlow s.level s.cursor
  return { s.push (.scalar true (String.ofList text)) with cursor, keyAllowed := broken }

/-- The characters that no plain text starts with, apart from hyphen, question mark and colon. -/
def reserved : List Char :=
  [',', '[', ']', '\x7b', '\x7d', '#', '&', '*', '!', '|', '>', '\'', '"', '%', '@', Char.ofNat 96]

/-- Takes the token that starts here. -/
def token (s : Scanner) (first : Char) (rest : List Char) : Option Scanner :=
  let stands := endsWord rest
  if s.cursor.column == 0 && first = '%' then none
  else if s.cursor.startsWithThree '-' then s.marker .documentStart
  else if s.cursor.startsWithThree '.' then s.marker .documentEnd
  else if first = '[' then s.openFlow .flowSequence
  else if first = ']' then s.closeFlow .flowSequenceEnd
  else if first = '\x7b' then s.openFlow .flowMapping
  else if first = '\x7d' then s.closeFlow .flowMappingEnd
  else if first = ',' then s.comma
  else if first = '-' && stands then s.item
  else if first = '?' && (s.inFlow || stands) then s.markedKey
  else if first = ':' && (s.inFlow || stands) then s.value
  else if first = '\'' || first = '"' then s.quotedScalar first
  else if (first = '|' || first = '>') && !s.inFlow then s.blockScalar (first = '|')
  else if isBlank first || reserved.contains first then none
  else s.plainScalar

/-- Closes everything at the end of the text. -/
def finish (s : Scanner) : Option (List Token) := do
  let s ← (s.closeTo 0).dropCandidate
  return s.tokens.toList

/-- Takes tokens until the text ends; every round takes a character. -/
def run : Nat → Scanner → Option (List Token)
  | 0, _ => none
  | fuel + 1, s => do
    let s ← (skipGap (s.cursor.rest.length + 1) s).dropStale
    match s.cursor.rest with
    | [] => s.finish
    | first :: rest =>
      let s := s.closeTo (s.cursor.column + 1)
      run fuel (← s.token first rest)

end Scanner

/-- The tokens of a text; nothing if it cannot be taken apart. -/
def Token.scan (text : String) : Option (List Token) := do
  let c ← Cursor.ofText text
  (Scanner.start c).run (c.rest.length + 1)

end Yaml
end RpcFlow
