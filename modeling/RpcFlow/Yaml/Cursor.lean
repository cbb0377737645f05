/-!
# Places in a YAML text

A `Cursor` is what is left of a text together with the line and the column it starts at, since
columns decide what belongs to what.

* `Cursor.ofText` starts on a text: every kind of line break but the two Unicode separators is one
  line feed from there on, and control characters are refused.
* `Cursor.advance` goes on by a number of characters.
* `startsMarker` says whether a line starts with the three hyphens or dots that end a document.
* `fold` is what a run of line breaks means inside a text that goes on over several lines.
-/

set_option autoImplicit false

namespace RpcFlow
namespace Yaml

/-! ## Characters -/

/-- The two separators that stay what they are when lines are joined. -/
def isSeparator (c : Char) : Bool := c.toNat == 0x2028 || c.toNat == 0x2029

def isBreak (c : Char) : Bool := c = '\n' || isSeparator c

def isBlank (c : Char) : Bool := c = ' ' || c = '\t'

def isWhite (c : Char) : Bool := isBlank c || isBreak c

/-- Is there a blank, a line break or nothing next? -/
def endsWord : List Char → Bool
  | [] => true
  | c :: _ => isWhite c

/-- May a character stand in a text at all? -/
def isAllowed (c : Char) : Bool :=
  let n := c.toNat
  c = '\t' || c = '\n' || (0x20 ≤ n && n ≤ 0x7E) || (0xA0 ≤ n && n ≤ 0xD7FF) ||
    (0xE000 ≤ n && n ≤ 0xFFFD) || 0x10000 ≤ n

/-- Writes every line break as one line feed, except for the two separators. -/
def unifyBreaks : List Char → List Char
  | [] => []
  | '\r' :: '\n' :: rest => '\n' :: unifyBreaks rest
  | c :: rest =>
    (if c = '\r' || c.toNat == 0x85 then '\n' else c) :: unifyBreaks rest

/-! ## Cursors -/

/-- What is left of a text, and where it starts; `index` counts the characters before it. -/
structure Cursor where
  rest : List Char
  line : Nat
  column : Nat
  index : Nat
  deriving Repr

namespace Cursor

/-- The start of a text, after a byte order mark if there is one. -/
def ofText (text : String) : Option Cursor :=
  let body :=
    match text.toList with
    | c :: rest => if c.toNat == 0xFEFF then rest else c :: rest
    | [] => []
  let body := unifyBreaks body
  if body.all isAllowed then some ⟨body, 0, 0, 0⟩ else none

/-- Goes on by one character. -/
def next (c : Cursor) : Cursor :=
  match c.rest with
  | [] => c
  | x :: rest =>
    if isBreak x then ⟨rest, c.line + 1, 0, c.index + 1⟩
    else ⟨rest, c.line, c.column + 1, c.index + 1⟩

/-- Goes on by a number of characters. -/
def advance (c : Cursor) : Nat → Cursor
  | 0 => c
  | count + 1 => c.next.advance count

/-- Goes on while characters satisfy a test. -/
def skipWhile (c : Cursor) (test : Char → Bool) : Cursor :=
  c.advance (c.rest.takeWhile test).length

/-- Does a line start here with three of a character and nothing more? -/
def startsWithThree (c : Cursor) (x : Char) : Bool :=
  c.column == 0 && c.rest.take 3 == [x, x, x] && endsWord (c.rest.drop 3)

/-- Does a line start here with a marker between documents? -/
def startsMarker (c : Cursor) : Bool := c.startsWithThree '-' || c.startsWithThree '.'

end Cursor

/-! ## Joining lines -/

/-- The meaning of a run of blanks and line breaks inside a text: blanks alone stay, one line break
is a space, and of more line breaks the first one is dropped. -/
def fold (white : List Char) : List Char :=
  match white.filter isBreak with
  | [] => white
  | ['\n'] => [' ']
  | '\n' :: more => more
  | breaks => breaks

/-- Does a tab stand among the first `level` columns of a line that starts in a run of blanks and
line breaks? -/
def indentsWithTab (level : Nat) : List Char → Bool
  | [] => false
  | c :: rest =>
    (isBreak c && ((rest.takeWhile isBlank).take level).contains '\t') || indentsWithTab level rest

example : fold ['\n'] = [' '] := rfl
example : fold [' ', '\n', ' ', '\n', '\n'] = ['\n', '\n'] := by decide

end Yaml
end RpcFlow
