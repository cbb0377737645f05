import RpcFlow.Number.Decimal
import RpcFlow.Toml.Tree

/-!
# Reading TOML

`Toml.read` takes a text apart into lines and builds their document (`Tree.ofStatements`).

* Texts stand between one or three quotes of either kind; only double quotes know escapes.
* Integers have 64 bits with a sign, in four bases; numbers with a fraction or an exponent are
  doubles.  Dates and times are not understood.
* Arrays may go on over several lines, tables between braces may not.
* Arrays and tables between braces nest `maxDepth` deep at most, and so do keys.

Readers take the characters that are left and answer a value and the characters after it.
-/

set_option autoImplicit false

namespace RpcFlow
namespace Toml

/-- A value and the characters after it. -/
abbrev Reads (α : Type) := Option (α × List Char)

/-! ## Characters -/

/-- May a character stand in a document at all? -/
def isAllowed (c : Char) : Bool :=
  c = '\t' || c = '\n' || (' ' ≤ c && c ≤ '~') || 0x80 ≤ c.toNat

/-- Writes every line break as one line feed; a carriage return alone stays. -/
def unifyBreaks : List Char → List Char
  | [] => []
  | '\r' :: '\n' :: rest => '\n' :: unifyBreaks rest
  | c :: rest => c :: unifyBreaks rest

def isBlank (c : Char) : Bool := c = ' ' || c = '\t'

def skipBlanks (cs : List Char) : List Char := cs.dropWhile isBlank

/-- Skips blanks and a comment. -/
def skipComment (cs : List Char) : List Char :=
  match skipBlanks cs with
  | '#' :: rest => rest.dropWhile (· != '\n')
  | rest => rest

/-- Skips blanks, comments and line breaks. -/
def skipLines : Nat → List Char → List Char
  | 0, cs => cs
  | fuel + 1, cs =>
    match skipComment cs with
    | '\n' :: rest => skipLines fuel rest
    | rest => rest

/-- Skips all blanks, comments and line breaks. -/
def skipAll (cs : List Char) : List Char := skipLines (cs.length + 1) cs

/-! ## Texts -/

/-- The characters that are written as a backslash and one letter. -/
def shortEscapes : List (Char × Nat) :=
  [('b', 8), ('t', 9), ('n', 10), ('f', 12), ('r', 13), ('"', 34), ('\\', 92)]

/-- The character with the hexadecimal code written by exactly `count` digits. -/
def readCode (count : Nat) (cs : List Char) : Reads Char :=
  let digits := cs.take count
  match natOfDigits? 16 digits with
  | none => none
  | some code =>
    if digits.length = count ∧ code.isValidChar then some (Char.ofNat code, cs.drop count)
    else none

/-- What follows a backslash. -/
def readEscape : List Char → Reads Char
  | 'u' :: rest => readCode 4 rest
  | 'U' :: rest => readCode 8 rest
  | c :: rest => (shortEscapes.lookup c).map fun code => (Char.ofNat code, rest)
  | [] => none

/-- The rest of a text on one line; `done` is what has been read, the last character first. -/
def readShortText (quote : Char) : Nat → List Char → List Char → Reads String
  | 0, _, _ => none
  | fuel + 1, done, cs =>
    match cs with
    | [] => none
    | c :: rest =>
      if c = quote then some (String.ofList done.reverse, rest)
      else if c = '\n' then none
      else if c = '\\' ∧ quote = '"' then
        match readEscape rest with
        | none => none
        | some (x, rest) => readShortText quote fuel (x :: done) rest
      else readShortText quote fuel (c :: done) rest

/-- The rest of a text between three quotes; one or two quotes may stand right before its end. -/
def readLongText (quote : Char) : Nat → List Char → List Char → Reads String
  | 0, _, _ => none
  | fuel + 1, done, cs =>
    match cs with
    | [] => none
    | c :: rest =>
      if c = quote then
        let run := min 5 (cs.takeWhile (· = quote)).length
        let inside := if run < 3 then run else run - 3
        let done := List.replicate inside quote ++ done
        if run < 3 then readLongText quote fuel done (cs.drop run)
        else some (String.ofList done.reverse, cs.drop run)
      else if c = '\\' ∧ quote = '"' then
        match skipBlanks rest with
        | '\n' :: more =>
          readLongText quote fuel done (more.dropWhile fun x => isBlank x || x = '\n')
        | _ =>
          match readEscape rest with
          | none => none
          | some (x, rest) => readLongText quote fuel (x :: done) rest
      else readLongText quote fuel (c :: done) rest

/-- A text after its first quote. -/
def readText (quote : Char) (cs : List Char) : Reads String :=
  match cs with
  | c :: d :: rest =>
    if c = quote ∧ d = quote then
      let body :=
        match rest with
        | '\n' :: rest => rest
        | rest => rest
      readLongText quote (body.length + 1) [] body
    else readShortText quote (cs.length + 1) [] cs
  | _ => readShortText quote (cs.length + 1) [] cs

/-! ## Keys -/

/-- How deep keys, arrays and tables between braces may nest. -/
def maxDepth : Nat := 79

def isBare (c : Char) : Bool := c.isAlphanum || c = '_' || c = '-'

/-- A part of a dotted key. -/
def readKeyPart : List Char → Reads String
  | [] => none
  | c :: rest =>
    if c = '"' || c = '\'' then readShortText c (rest.length + 1) [] rest
    else
      let word := (c :: rest).takeWhile isBare
      if word.isEmpty then none else some (String.ofList word, (c :: rest).dropWhile isBare)

/-- The parts of a dotted key; `done` are the earlier ones, the last one first. -/
def readKeyParts : Nat → List String → List Char → Reads (List String × String)
  | 0, _, _ => none
  | fuel + 1, done, cs =>
    match readKeyPart cs with
    | none => none
    | some (part, rest) =>
      match skipBlanks rest with
      | '.' :: more => readKeyParts fuel (part :: done) (skipBlanks more)
      | rest => some ((done.reverse, part), rest)

/-- A dotted key and the blanks after it. -/
def readKey (cs : List Char) : Reads Key :=
  (readKeyParts maxDepth [] (skipBlanks cs)).map fun ((path, name), rest) => (⟨path, name⟩, rest)

/-! ## Numbers and words -/

/-- Takes the underscores out of a number; each must stand between two digits. -/
def withoutUnderscores (isDigit : Char → Bool) : List Char → Option (List Char)
  | [] => some []
  | '_' :: _ => none
  | c :: '_' :: d :: rest =>
    if isDigit c && isDigit d then (withoutUnderscores isDigit (d :: rest)).map (c :: ·) else none
  | c :: rest => (withoutUnderscores isDigit rest).map (c :: ·)

/-- An integer that fits 64 bits with a sign. -/
def fitting (n : Int) : Option Tree :=
  if minSigned 64 ≤ n ∧ n ≤ maxSigned 64 then some (.integer n) else none

/-- An integer after the mark of its base. -/
def basedInteger (base : Nat) (digits : List Char) : Option Tree := do
  let plain ← withoutUnderscores (fun c => (digitValue? c).isSome) digits
  fitting (← natOfDigits? base plain)

/-- Is there a zero before other digits? -/
def isPadded : List Char → Bool
  | '0' :: d :: _ => d.isDigit
  | _ => false

/-- Does a number have digits wherever the notation wants them? -/
def isDecimal (body : List Char) : Bool :=
  let digits (cs : List Char) : Bool := !cs.isEmpty && cs.all Char.isDigit
  let mantissa := body.takeWhile fun c => c != 'e' && c != 'E'
  let exponent := (body.drop mantissa.length).drop 1
  let whole := mantissa.takeWhile (· != '.')
  digits whole && (whole.length == mantissa.length || digits (mantissa.drop (whole.length + 1))) &&
    (mantissa.length == body.length || digits (splitSign exponent).2)

/-- A number in base ten: a double if it has a fraction or an exponent. -/
def decimalValue (word : List Char) : Option Tree := do
  let (negative, body) := splitSign word
  let plain ← withoutUnderscores Char.isDigit body
  if isPadded plain then none
  else
    match natOfDigits? 10 plain with
    | some n => fitting (if negative then -(n : Int) else n)
    | none =>
      if isDecimal plain then
        (Binary64.ofDecimalText? (if negative then '-' :: plain else plain)).map .number
      else none

/-- The words for infinities and for what is not a number. -/
def endlessWords : List String := ["inf", "+inf", "-inf", "nan", "+nan", "-nan"]

/-- The value of a word: a truth value or a number. -/
def wordValue (word : List Char) : Option Tree :=
  if String.ofList word = "true" then some (.flag true)
  else if String.ofList word = "false" then some (.flag false)
  else if endlessWords.contains (String.ofList word) then some .endless
  else
    match word with
    | '0' :: 'x' :: digits => basedInteger 16 digits
    | '0' :: 'o' :: digits => basedInteger 8 digits
    | '0' :: 'b' :: digits => basedInteger 2 digits
    | _ => decimalValue word

/-- The characters of words and numbers. -/
def isWordChar (c : Char) : Bool := c.isAlphanum || c = '_' || c = '+' || c = '-' || c = '.'

/-! ## Values -/

mutual

/-- A value; `depth` more levels may open in it. -/
def readValue : Nat → Nat → List Char → Reads Tree
  | 0, _, _ => none
  | fuel + 1, depth, cs =>
    match cs, depth with
    | [], _ => none
    | '"' :: rest, _ => (readText '"' rest).map fun (s, rest) => (.text s, rest)
    | '\'' :: rest, _ => (readText '\'' rest).map fun (s, rest) => (.text s, rest)
    | '[' :: _, 0 => none
    | '\x7b' :: _, 0 => none
    | '[' :: rest, depth + 1 =>
      (readItems fuel depth [] (skipAll rest)).map fun (xs, rest) => (.array xs, rest)
    | '\x7b' :: rest, depth + 1 =>
      match skipBlanks rest with
      | '\x7d' :: rest => some (.table .inline [], rest)
      | rest => (readPairs fuel depth [] rest).map fun (es, rest) => (.table .inline es, rest)
    | _, _ =>
      (wordValue (cs.takeWhile isWordChar)).map fun x => (x, cs.dropWhile isWordChar)

/-- The items of an array; `done` are the earlier ones, the last one first. -/
def readItems : Nat → Nat → List Tree → List Char → Reads (List Tree)
  | 0, _, _, _ => none
  | fuel + 1, depth, done, cs =>
    match cs with
    | ']' :: rest => some (done.reverse, rest)
    | _ =>
      match readValue fuel depth cs with
      | none => none
      | some (x, rest) =>
        match skipAll rest with
        | ',' :: rest => readItems fuel depth (x :: done) (skipAll rest)
        | ']' :: rest => some ((x :: done).reverse, rest)
        | _ => none

/-- The entries of a table between braces. -/
def readPairs : Nat → Nat → Dict Tree → List Char → Reads (Dict Tree)
  | 0, _, _, _ => none
  | fuel + 1, depth, done, cs =>
    match readKey cs with
    | some (key, '=' :: rest) =>
      match readValue fuel depth (skipBlanks rest) with
      | none => none
      | some (x, rest) =>
        match Tree.bind done key x with
        | none => none
        | some done =>
          match skipBlanks rest with
          | ',' :: rest => readPairs fuel depth done rest
          | '\x7d' :: rest => some (done, rest)
          | _ => none
    | _ => none

end

/-! ## Lines -/

/-- A header or an assignment. -/
def readStatement (cs : List Char) : Reads Statement :=
  match cs with
  | '[' :: '[' :: rest =>
    match readKey rest with
    | some (key, ']' :: ']' :: rest) => some (.row key, rest)
    | _ => none
  | '[' :: rest =>
    match readKey rest with
    | some (key, ']' :: rest) => some (.header key, rest)
    | _ => none
  | _ =>
    match readKey cs with
    | some (key, '=' :: rest) =>
      (readValue (cs.length + 1) maxDepth (skipBlanks rest)).map fun (x, rest) =>
        (.assign key x, rest)
    | _ => none

/-- The lines of a document; `done` are the earlier ones, the last one first. -/
def readStatements : Nat → List Statement → List Char → Option (List Statement)
  | 0, _, _ => none
  | fuel + 1, done, cs =>
    match skipAll cs with
    | [] => some done.reverse
    | cs =>
      match readStatement cs with
      | none => none
      | some (line, rest) =>
        match skipComment rest with
        | [] => some (line :: done).reverse
        | '\n' :: rest => readStatements fuel (line :: done) rest
        | _ => none

/-- The document of a text. -/
def read (text : String) : Option Tree := do
  let body :=
    match text.toList with
    | c :: rest => if c.toNat == 0xFEFF then rest else c :: rest
    | [] => []
  let body := unifyBreaks body
  if body.all isAllowed then
    Tree.ofStatements (← readStatements (body.length + 1) [] body)
  else none

end Toml
end RpcFlow
