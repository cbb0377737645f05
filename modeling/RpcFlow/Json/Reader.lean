import RpcFlow.Json.Basic
import RpcFlow.Number.Decimal

/-!
# Reading JSON text

`Json.read` turns a text into a value or says what is wrong and where.  Lines count from one and
columns count the bytes of the line that have been taken; an error about a character that was looked
at and not taken is placed one byte further, and at the end of the text at the end itself.

* `ReadFault` is what can be wrong, `ReadFault.message` its wording.
* Numbers without a fraction or exponent stay integers while they fit 64 bits; other numbers are
  doubles, of whose digits only those that fit 64 bits count (`Binary64.ofDecimalStepwise`).
* Arrays and objects may nest `maxDepth` deep.
* Of a repeated key the last value counts.

The reader is a recursive descent over the remaining characters.  Its fuel is set from the length
of the text, and every call that goes deeper has taken a character, so it never runs out.
-/

set_option autoImplicit false

namespace RpcFlow
namespace Json

/-- A place in a text. -/
structure Position where
  line : Nat
  column : Nat
  deriving DecidableEq, Repr

namespace Position

/-- The place after a character. -/
def after (p : Position) (c : Char) : Position :=
  if c = '\n' then ⟨p.line + 1, 0⟩ else ⟨p.line, p.column + c.utf8Size⟩

/-- The place of the next character that is only looked at: one byte on. -/
def peek (p : Position) : List Char → Position
  | [] => p
  | c :: _ => if c = '\n' then ⟨p.line + 1, 0⟩ else ⟨p.line, p.column + 1⟩

/-- The place `count` bytes on. -/
def skipBytes (p : Position) : List Char → Nat → Position
  | [], _ => p
  | c :: rest, count =>
    if count = 0 then p
    else if c.utf8Size ≤ count then (p.after c).skipBytes rest (count - c.utf8Size)
    else ⟨p.line, p.column + count⟩

end Position

/-- What can be wrong with a JSON text. -/
inductive ReadFault where
  | endInList
  | endInObject
  | endInString
  | endInValue
  | expectedColon
  | expectedListCommaOrEnd
  | expectedObjectCommaOrEnd
  | expectedIdent
  | expectedValue
  | invalidEscape
  | invalidNumber
  | numberOutOfRange
  | controlCharacter
  | keyMustBeString
  | loneSurrogate
  | unexpectedEndOfHexEscape
  | trailingComma
  | trailingCharacters
  | recursionLimit
  deriving DecidableEq, Repr

def ReadFault.message : ReadFault → String
  | endInList => "EOF while parsing a list"
  | endInObject => "EOF while parsing an object"
  | endInString => "EOF while parsing a string"
  | endInValue => "EOF while parsing a value"
  | expectedColon => "expected `:`"
  | expectedListCommaOrEnd => "expected `,` or `]`"
  | expectedObjectCommaOrEnd => "expected `,` or `\x7d`"
  | expectedIdent => "expected ident"
  | expectedValue => "expected value"
  | invalidEscape => "invalid escape"
  | invalidNumber => "invalid number"
  | numberOutOfRange => "number out of range"
  | controlCharacter =>
    "control character (\\u0000-\\u001F) found while parsing a string"
  | keyMustBeString => "key must be a string"
  | loneSurrogate => "lone leading surrogate in hex escape"
  | unexpectedEndOfHexEscape => "unexpected end of hex escape"
  | trailingComma => "trailing comma"
  | trailingCharacters => "trailing characters"
  | recursionLimit => "recursion limit exceeded"

/-- A fault and its place. -/
structure ReadError where
  fault : ReadFault
  place : Position
  deriving DecidableEq, Repr

def ReadError.message (e : ReadError) : String :=
  e.fault.message ++ " at line " ++ toString e.place.line ++ " column " ++ toString e.place.column

/-- The characters still to be read and the place of the first of them. -/
structure Cursor where
  rest : List Char
  place : Position
  deriving Repr

/-- A step of the reader: a value and what is left, or an error. -/
abbrev Reads (α : Type) := Except ReadError (α × Cursor)

namespace Cursor

def ofString (s : String) : Cursor := ⟨s.toList, ⟨1, 0⟩⟩

/-- Takes one character that is known to be next. -/
def skip (c : Cursor) : Cursor :=
  match c.rest with
  | [] => c
  | x :: rest => ⟨rest, c.place.after x⟩

/-- An error about what has been taken. -/
def fail {α : Type} (c : Cursor) (fault : ReadFault) : Except ReadError α :=
  .error ⟨fault, c.place⟩

/-- An error about the next character. -/
def failPeek {α : Type} (c : Cursor) (fault : ReadFault) : Except ReadError α :=
  .error ⟨fault, c.place.peek c.rest⟩

/-- An error about a character of which one byte has been taken. -/
def failTaken {α : Type} (c : Cursor) (fault : ReadFault) : Except ReadError α :=
  .error ⟨fault, c.place.skipBytes c.rest 1⟩

def isBlank (c : Char) : Bool := c = ' ' || c = '\n' || c = '\t' || c = '\r'

/-- Skips white space, given as the remaining characters and their place. -/
def skipBlanks : List Char → Position → Cursor
  | [], p => ⟨[], p⟩
  | c :: rest, p => if isBlank c then skipBlanks rest (p.after c) else ⟨c :: rest, p⟩

/-- The cursor after white space. -/
def blanks (c : Cursor) : Cursor := skipBlanks c.rest c.place

end Cursor

/-- The characters of a keyword. -/
def readKeyword : List Char → Cursor → Except ReadError Cursor
  | [], c => .ok c
  | expected :: more, c =>
    match c.rest with
    | [] => c.fail .endInValue
    | x :: _ => if x = expected then readKeyword more c.skip else c.failTaken .expectedIdent

/-! ## Strings -/

/-- The number of bytes of a text. -/
def byteCount (cs : List Char) : Nat := cs.foldl (fun n c => n + c.utf8Size) 0

/-- The four digits of a `\u` escape. -/
def readHexEscape (c : Cursor) : Reads Nat :=
  match c.rest with
  | w :: x :: y :: z :: rest =>
    match digitValue? w, digitValue? x, digitValue? y, digitValue? z with
    | some a, some b, some d, some e =>
      .ok (a * 4096 + b * 256 + d * 16 + e, ⟨rest, c.place.skipBytes c.rest 4⟩)
    | _, _, _, _ => .error ⟨.invalidEscape, c.place.skipBytes c.rest 4⟩
  | short =>
    if byteCount short < 4 then .error ⟨.endInString, c.place.skipBytes short 4⟩
    else .error ⟨.invalidEscape, c.place.skipBytes short 4⟩

/-- The second half of a surrogate pair whose first half is `high`. -/
def readLowSurrogate (high : Nat) (c : Cursor) : Reads Char :=
  match c.rest with
  | [] => c.fail .endInString
  | '\\' :: _ =>
    let c := c.skip
    match c.rest with
    | [] => c.fail .endInString
    | 'u' :: _ =>
      match readHexEscape c.skip with
      | .error e => .error e
      | .ok (low, c) =>
        if 0xDC00 ≤ low ∧ low ≤ 0xDFFF then
          .ok (Char.ofNat ((high - 0xD800) * 1024 + (low - 0xDC00) + 0x10000), c)
        else c.fail .loneSurrogate
    | _ => c.failTaken .unexpectedEndOfHexEscape
  | _ => c.failTaken .unexpectedEndOfHexEscape

/-- What follows a backslash. -/
def readEscape (c : Cursor) : Reads Char :=
  match c.rest with
  | [] => c.fail .endInString
  | '"' :: _ => .ok ('"', c.skip)
  | '\\' :: _ => .ok ('\\', c.skip)
  | '/' :: _ => .ok ('/', c.skip)
  | 'b' :: _ => .ok (Char.ofNat 8, c.skip)
  | 'f' :: _ => .ok (Char.ofNat 12, c.skip)
  | 'n' :: _ => .ok ('\n', c.skip)
  | 'r' :: _ => .ok ('\r', c.skip)
  | 't' :: _ => .ok ('\t', c.skip)
  | 'u' :: _ =>
    match readHexEscape c.skip with
    | .error e => .error e
    | .ok (n, c) =>
      if 0xDC00 ≤ n ∧ n ≤ 0xDFFF then c.fail .loneSurrogate
      else if 0xD800 ≤ n ∧ n ≤ 0xDBFF then readLowSurrogate n c
      else .ok (Char.ofNat n, c)
  | _ => c.failTaken .invalidEscape

/-- The rest of a string whose opening quote has been taken; `taken` is the text so far. -/
def readString : Nat → String → Cursor → Reads String
  | 0, _, c => c.fail .endInString
  | fuel + 1, taken, c =>
    match c.rest with
    | [] => c.fail .endInString
    | '"' :: _ => .ok (taken, c.skip)
    | '\\' :: _ =>
      match readEscape c.skip with
      | .error e => .error e
      | .ok (x, c) => readString fuel (taken.push x) c
    | x :: _ =>
      if x.toNat < 32 then c.skip.fail .controlCharacter
      else readString fuel (taken.push x) c.skip

/-! ## Numbers -/

def digit? (c : Char) : Option Nat :=
  if '0' ≤ c ∧ c ≤ '9' then some (c.toNat - '0'.toNat) else none

/-- The greatest significand kept while digits are read. -/
def maxSignificand : Nat := maxUnsigned 64

/-- The greatest exponent that is still read. -/
def maxExponentRead : Nat := maxSigned 32

/-- Skips digits, given as the remaining characters and their place. -/
def skipDigits : List Char → Position → Cursor
  | [], p => ⟨[], p⟩
  | x :: rest, p => if (digit? x).isSome then skipDigits rest (p.after x) else ⟨x :: rest, p⟩

/-- A double, or the complaint that it is out of range. -/
def finishFloat (negative : Bool) (significand : Nat) (exponent : Int) (c : Cursor) : Reads Json :=
  match Binary64.ofDecimalStepwise negative significand exponent with
  | some x => .ok (.float x, c)
  | none => c.fail .numberOutOfRange

/-- The digits of an exponent after its first one.  A positive exponent that is too large is an
error unless the number is zero; a negative one makes it zero. -/
def readExponentDigits (negative : Bool) (significand : Nat) (start : Int) (positive : Bool)
    (exponent : Nat) : List Char → Position → Reads Json
  | [], p =>
    finishFloat negative significand (if positive then start + exponent else start - exponent)
      ⟨[], p⟩
  | x :: rest, p =>
    match digit? x with
    | none =>
      finishFloat negative significand (if positive then start + exponent else start - exponent)
        ⟨x :: rest, p⟩
    | some d =>
      if exponent * 10 + d > maxExponentRead then
        if significand ≠ 0 ∧ positive then .error ⟨.numberOutOfRange, p.after x⟩
        else .ok (.float (Binary64.zero negative), skipDigits rest (p.after x))
      else
        readExponentDigits negative significand start positive (exponent * 10 + d) rest (p.after x)

/-- An exponent, from its letter on. -/
def readExponent (negative : Bool) (significand : Nat) (start : Int) (c : Cursor) : Reads Json :=
  let c := c.skip
  let (positive, c) :=
    match c.rest with
    | '+' :: _ => (true, c.skip)
    | '-' :: _ => (false, c.skip)
    | _ => (true, c)
  match c.rest with
  | [] => c.fail .endInValue
  | x :: rest =>
    match digit? x with
    | none => c.failTaken .invalidNumber
    | some d => readExponentDigits negative significand start positive d rest (c.place.after x)

/-- What follows the digits of a fraction. -/
def finishFraction (negative : Bool) (significand : Nat) (exponent : Int) (c : Cursor) :
    Reads Json :=
  match c.rest with
  | 'e' :: _ | 'E' :: _ => readExponent negative significand exponent c
  | _ => finishFloat negative significand exponent c

/-- The digits of a fraction, of which those that overflow the significand are ignored;
`found` says that there has been one. -/
def readFractionDigits (negative found : Bool) (significand : Nat) (exponent : Int) :
    List Char → Position → Reads Json
  | [], p =>
    if found then finishFraction negative significand exponent ⟨[], p⟩
    else Cursor.failPeek ⟨[], p⟩ .endInValue
  | x :: rest, p =>
    match digit? x with
    | some d =>
      if significand * 10 + d > maxSignificand then
        finishFraction negative significand exponent (skipDigits (x :: rest) p)
      else
        readFractionDigits negative true (significand * 10 + d) (exponent - 1) rest (p.after x)
    | none =>
      if found then finishFraction negative significand exponent ⟨x :: rest, p⟩
      else Cursor.failPeek ⟨x :: rest, p⟩ .invalidNumber

/-- A fraction, from its point on. -/
def readFraction (negative : Bool) (significand : Nat) (exponent : Int) (c : Cursor) : Reads Json :=
  let c := c.skip
  readFractionDigits negative false significand exponent c.rest c.place

/-- The integer digits that no longer fit the significand; each counts as a power of ten. -/
def readLongInteger (negative : Bool) (significand : Nat) (exponent : Int) :
    List Char → Position → Reads Json
  | [], p => finishFloat negative significand exponent ⟨[], p⟩
  | x :: rest, p =>
    if x = '.' then readFraction negative significand exponent ⟨x :: rest, p⟩
    else if x = 'e' ∨ x = 'E' then readExponent negative significand exponent ⟨x :: rest, p⟩
    else if (digit? x).isSome then
      readLongInteger negative significand (exponent + 1) rest (p.after x)
    else finishFloat negative significand exponent ⟨x :: rest, p⟩

/-- What follows the integer digits of a number. -/
def finishInteger (negative : Bool) (significand : Nat) (c : Cursor) : Reads Json :=
  match c.rest with
  | '.' :: _ => readFraction negative significand 0 c
  | 'e' :: _ | 'E' :: _ => readExponent negative significand 0 c
  | _ =>
    if negative then
      -- zero and what is below the least integer become doubles
      if 0 < significand ∧ significand ≤ wordCount 63 then .ok (.int (-(significand : Int)), c)
      else finishFloat true significand 0 c
    else .ok (.int significand, c)

/-- The integer digits after the first one. -/
def readIntegerDigits (negative : Bool) (significand : Nat) : List Char → Position → Reads Json
  | [], p => finishInteger negative significand ⟨[], p⟩
  | x :: rest, p =>
    match digit? x with
    | none => finishInteger negative significand ⟨x :: rest, p⟩
    | some d =>
      if significand * 10 + d > maxSignificand then
        readLongInteger negative significand 0 (x :: rest) p
      else readIntegerDigits negative (significand * 10 + d) rest (p.after x)

/-- A number whose sign has been taken. -/
def readNumber (negative : Bool) (c : Cursor) : Reads Json :=
  match c.rest with
  | [] => c.fail .endInValue
  | x :: rest =>
    match digit? x with
    | none => c.failTaken .invalidNumber
    | some 0 =>
      let c := c.skip
      if (c.rest.head?.bind digit?).isSome then c.failPeek .invalidNumber
      else finishInteger negative 0 c
    | some d => readIntegerDigits negative d rest (c.place.after x)

/-! ## Values -/

/-- How deep arrays and objects may nest. -/
def maxDepth : Nat := 127

mutual

/-- A value; `depth` more levels may open below it. -/
def readValue : Nat → Nat → Cursor → Reads Json
  | 0, _, c => c.fail .expectedValue
  | fuel + 1, depth, c =>
    let c := c.blanks
    match c.rest with
    | [] => c.failPeek .endInValue
    | 'n' :: _ => (readKeyword ['u', 'l', 'l'] c.skip).map fun c => (.null, c)
    | 't' :: _ => (readKeyword ['r', 'u', 'e'] c.skip).map fun c => (.bool true, c)
    | 'f' :: _ => (readKeyword ['a', 'l', 's', 'e'] c.skip).map fun c => (.bool false, c)
    | '-' :: _ => readNumber true c.skip
    | '"' :: _ => (readString fuel "" c.skip).map fun (s, c) => (.str s, c)
    | '[' :: _ =>
      match depth with
      | 0 => c.failPeek .recursionLimit
      | depth + 1 => (readItems fuel depth true [] c.skip).map fun (xs, c) => (.arr xs, c)
    | '\x7b' :: _ =>
      match depth with
      | 0 => c.failPeek .recursionLimit
      | depth + 1 => (readMembers fuel depth true [] c.skip).map fun (ms, c) => (.obj ms, c)
    | x :: _ =>
      if (digit? x).isSome then readNumber false c else c.failPeek .expectedValue

/-- The items of an array after its bracket or after an item; `done` holds the items so far, the
last one first. -/
def readItems : Nat → Nat → Bool → List Json → Cursor → Reads (List Json)
  | 0, _, _, _, c => c.fail .endInList
  | fuel + 1, depth, first, done, c =>
    let c := c.blanks
    match c.rest with
    | [] => c.failPeek .endInList
    | ']' :: _ => .ok (done.reverse, c.skip)
    | x :: _ =>
      let start : Except ReadError Cursor :=
        if first then .ok c
        else if x = ',' then
          let c := c.skip.blanks
          match c.rest with
          | [] => c.failPeek .endInValue
          | ']' :: _ => c.failPeek .trailingComma
          | _ => .ok c
        else c.failPeek .expectedListCommaOrEnd
      match start with
      | .error e => .error e
      | .ok c =>
        match readValue fuel depth c with
        | .error e => .error e
        | .ok (v, c) => readItems fuel depth false (v :: done) c

/-- The members of an object after its brace or after a member. -/
def readMembers :
    Nat → Nat → Bool → List (String × Json) → Cursor → Reads (List (String × Json))
  | 0, _, _, _, c => c.fail .endInObject
  | fuel + 1, depth, first, done, c =>
    let c := c.blanks
    match c.rest with
    | [] => c.failPeek .endInObject
    | '\x7d' :: _ => .ok (done, c.skip)
    | x :: _ =>
      let start : Except ReadError Cursor :=
        if first then
          if x = '"' then .ok c else c.failPeek .keyMustBeString
        else if x = ',' then
          let c := c.skip.blanks
          match c.rest with
          | [] => c.failPeek .endInValue
          | '\x7d' :: _ => c.failPeek .trailingComma
          | '"' :: _ => .ok c
          | _ => c.failPeek .keyMustBeString
        else c.failPeek .expectedObjectCommaOrEnd
      match start with
      | .error e => .error e
      | .ok c =>
        match readString fuel "" c.skip with
        | .error e => .error e
        | .ok (key, c) =>
          let c := c.blanks
          match c.rest with
          | [] => c.failPeek .endInObject
          | ':' :: _ =>
            match readValue fuel depth c.skip with
            | .error e => .error e
            | .ok (v, c) => readMembers fuel depth false (Dict.put done key v) c
          | _ => c.failPeek .expectedColon

end

/-- The value of a text that holds nothing else. -/
def read (text : String) : Except ReadError Json :=
  let c := Cursor.ofString text
  match readValue (2 * c.rest.length + 2) maxDepth c with
  | .error e => .error e
  | .ok (v, c) =>
    let c := c.blanks
    if c.rest.isEmpty then .ok v else c.failPeek .trailingCharacters

end Json
end RpcFlow
