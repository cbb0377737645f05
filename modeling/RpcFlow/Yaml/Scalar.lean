import RpcFlow.Number.Decimal
import RpcFlow.Yaml.Cursor

/-!
# Scalar texts

The four ways to write a text in YAML: plain words, between single or double quotes, and as a block
of lines.  Each reader takes a cursor at the start and gives the text and the cursor after it.

* `plain` stops before a comment, a line that is indented too little, and the punctuation that ends
  a word (`plainWord`).
* `quoted` joins lines and reads escapes; its opening quote has been taken.
* `block` keeps the lines (`|`) or joins them (`>`), and its header says what becomes of the line
  breaks at the end.

Fuel is always the number of characters that are left, and every round takes one.
-/

set_option autoImplicit false

namespace RpcFlow
namespace Yaml

/-- A reader of a scalar. -/
abbrev Scans := Option (List Char × Cursor)

/-! ## Plain words -/

/-- The punctuation of flow collections. -/
def isFlowMark (c : Char) : Bool := [',', '[', ']', '\x7b', '\x7d'].contains c

/-- The word that starts here.  A colon ends it before a blank; in a flow collection punctuation
ends it, and a colon right before punctuation is an error. -/
def plainWord (flow : Bool) : List Char → Option (List Char)
  | [] => some []
  | c :: rest =>
    if isWhite c then some []
    else if c = ':' && endsWord rest then some []
    else if flow && c = ':' && (rest.take 1).any (fun x => isFlowMark x || x = '?') then none
    else if flow && isFlowMark c then some []
    else (plainWord flow rest).map (c :: ·)

/-- Do words go on here, after the run `white`? -/
def goesOn (flow : Bool) (level : Nat) (white : List Char) (c : Cursor) : Bool :=
  !(c.startsMarker || c.rest.head? == some '#' ||
    (!flow && !white.isEmpty && c.column < level))

/-- Words and what is between them; answers also whether a line break follows the last word. -/
def plainWords (flow : Bool) (level : Nat) :
    Nat → List Char → List Char → Cursor → Option (List Char × Cursor × Bool)
  | 0, text, white, c => some (text, c, white.any isBreak)
  | fuel + 1, text, white, c =>
    if goesOn flow level white c then do
      let word ← plainWord flow c.rest
      if word.isEmpty then return (text, c, white.any isBreak)
      let c := c.advance word.length
      let gap := c.rest.takeWhile isWhite
      if indentsWithTab level gap then none
      else plainWords flow level fuel (text ++ fold white ++ word) gap (c.advance gap.length)
    else some (text, c, white.any isBreak)

/-- A plain text whose further lines start at column `level` at least. -/
def plain (flow : Bool) (level : Nat) (c : Cursor) : Option (List Char × Cursor × Bool) :=
  plainWords flow level c.rest.length [] [] c

/-! ## Quoted texts -/

/-- The character with the hexadecimal code written by exactly `count` digits. -/
def codedChar? (count : Nat) (rest : List Char) : Option Char := do
  let digits := rest.take count
  let code ← natOfDigits? 16 digits
  if digits.length = count ∧ code.isValidChar then some (Char.ofNat code) else none

/-- The characters that are written as a backslash and one letter. -/
def shortEscapes : List (Char × Nat) :=
  [('0', 0), ('a', 7), ('b', 8), ('t', 9), ('\t', 9), ('n', 10), ('v', 11), ('f', 12), ('r', 13),
    ('e', 27), (' ', 32), ('"', 34), ('/', 47), ('\\', 92), ('N', 0x85), ('_', 0xA0), ('L', 0x2028),
    ('P', 0x2029)]

/-- The escapes by code: the letter and the number of digits. -/
def codeEscapes : List (Char × Nat) := [('x', 2), ('u', 4), ('U', 8)]

/-- What follows a backslash: a character and how many were taken for it. -/
def escape? : List Char → Option (Char × Nat)
  | [] => none
  | c :: rest =>
    match shortEscapes.lookup c, codeEscapes.lookup c with
    | some code, _ => some (Char.ofNat code, 1)
    | none, some count => (codedChar? count rest).map fun x => (x, count + 1)
    | none, none => none

/-- The rest of a quoted text; `text` is what has been read, the last character first. -/
def quotedRest (quote : Char) : Nat → List Char → Cursor → Scans
  | 0, _, _ => none
  | fuel + 1, text, c =>
    match c.rest with
    | [] => none
    | x :: rest =>
      if c.startsMarker then none
      else if isWhite x then
        let gap := c.rest.takeWhile isWhite
        quotedRest quote fuel ((fold gap).reverse ++ text) (c.advance gap.length)
      else if x = quote then
        if quote = '\'' && rest.head? == some '\'' then
          quotedRest quote fuel (x :: text) (c.advance 2)
        else some (text.reverse, c.next)
      else if x = '\\' && quote = '"' then
        if (rest.take 1).any isBreak then
          let gap := rest.takeWhile isWhite
          quotedRest quote fuel (((gap.drop 1).filter isBreak).reverse ++ text)
            (c.advance (gap.length + 1))
        else
          match escape? rest with
          | none => none
          | some (y, count) => quotedRest quote fuel (y :: text) (c.advance (count + 1))
      else quotedRest quote fuel (x :: text) c.next

/-- A quoted text after its opening quote. -/
def quoted (quote : Char) (c : Cursor) : Scans := quotedRest quote (c.rest.length + 1) [] c

/-! ## Blocks of lines -/

/-- What becomes of the line breaks at the end of a block. -/
inductive Chomping where
  | strip
  | clip
  | keep
  deriving DecidableEq, Repr

/-- The header of a block: what becomes of its end, and the indentation if it is given. -/
def blockHeader? (header : List Char) : Option (Chomping × Option Nat) :=
  let chomping? (c : Char) : Option Chomping :=
    if c = '-' then some .strip else if c = '+' then some .keep else none
  let indent? (c : Char) : Option Nat :=
    if '1' ≤ c ∧ c ≤ '9' then some (c.toNat - '0'.toNat) else none
  match header with
  | [] => some (.clip, none)
  | [x] =>
    match chomping? x, indent? x with
    | some m, _ => some (m, none)
    | none, some n => some (.clip, some n)
    | none, none => none
  | [x, y] =>
    match chomping? x, indent? y, indent? x, chomping? y with
    | some m, some n, _, _ => some (m, some n)
    | _, _, some n, some m => some (m, some n)
    | _, _, _, _ => none
  | _ => none

/-- Skips empty lines and the indentation of the next line, up to `limit` columns; answers the line
breaks, the last one first, and the greatest column that was reached. -/
def emptyLines (limit : Option Nat) :
    Nat → List Char → Nat → Cursor → Option (List Char × Nat × Cursor)
  | 0, breaks, widest, c => some (breaks, widest, c)
  | fuel + 1, breaks, widest, c =>
    let spaces := (c.rest.takeWhile (· = ' ')).length
    let c := c.advance (match limit with
      | some n => min spaces (n - c.column)
      | none => spaces)
    let widest := max widest c.column
    let inside : Bool :=
      match limit with
      | some n => c.column < n
      | none => true
    match c.rest with
    | x :: _ =>
      if inside && x = '\t' then none
      else if isBreak x then emptyLines limit fuel (x :: breaks) widest c.next
      else some (breaks, widest, c)
    | [] => some (breaks, widest, c)

/-- A block while it is read; characters and line breaks are kept the last one first. -/
structure BlockText where
  text : List Char
  /-- The line break after the last line. -/
  ending : List Char
  /-- The empty lines after it. -/
  breaks : List Char
  /-- Did the last line start with a blank? -/
  blankStart : Bool

/-- What joins the last line to the next one, the last character first. -/
def BlockText.joint (b : BlockText) (keepLines startsBlank : Bool) : List Char :=
  if !keepLines && b.ending == ['\n'] && !b.blankStart && !startsBlank then
    if b.breaks.isEmpty then [' '] else b.breaks
  else b.breaks ++ b.ending

/-- The lines of a block. -/
def blockLines (keepLines : Bool) (indent : Nat) :
    Nat → BlockText → Cursor → Option (BlockText × Cursor)
  | 0, b, c => some (b, c)
  | fuel + 1, b, c =>
    if c.column == indent && !c.rest.isEmpty then
      let line := c.rest.takeWhile (!isBreak ·)
      let startsBlank := line.head?.any isBlank
      let text := line.reverse ++ b.joint keepLines startsBlank ++ b.text
      let c := c.advance line.length
      let ending := c.rest.take 1
      match emptyLines (some indent) (c.rest.length + 1) [] 0 c.next with
      | none => none
      | some (breaks, _, c) => blockLines keepLines indent fuel ⟨text, ending, breaks, startsBlank⟩ c
    else some (b, c)

/-- A block after its `|` or `>`; its lines start at column `level` at least. -/
def block (keepLines : Bool) (level : Nat) (c : Cursor) : Scans := do
  let header := c.rest.takeWhile fun x => !isWhite x && x != '#'
  let (chomping, indent) ← blockHeader? header
  let c := (c.advance header.length).skipWhile isBlank
  let c := if c.rest.head? == some '#' then c.skipWhile (!isBreak ·) else c
  if !(c.rest.take 1).all isBreak then none
  else
    let limit := indent.map fun n => level - 1 + n
    let (breaks, widest, c) ← emptyLines limit (c.rest.length + 1) [] 0 c.next
    let indent := limit.getD (max 1 (max widest level))
    let (b, c) ← blockLines keepLines indent (c.rest.length + 1) ⟨[], [], breaks, false⟩ c
    let tail :=
      match chomping with
      | .strip => []
      | .clip => b.ending
      | .keep => b.breaks ++ b.ending
    return ((tail ++ b.text).reverse, c)

end Yaml
end RpcFlow
