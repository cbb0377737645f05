import RpcFlow.Text.Printable

/-!
# Quoted texts and labelled records

How values are shown to a person: a text in double quotes with everything invisible escaped, and a
record as its name and its labelled fields.

* `Text.quoted` escapes quotes, backslashes, the usual control characters by letter and every other
  invisible or joining character by its code point, as in `\u{301}`.
* `Text.record` writes `Name \x7b field: value, … \x7d`.
-/

set_option autoImplicit false

namespace RpcFlow
namespace Text

/-- A code point in hexadecimal without leading zeros. -/
def hex (n : Nat) : String := String.ofList (Nat.toDigits 16 n)

/-- The form of a character between quotes. -/
def quotedChar (c : Char) : String :=
  if c = Char.ofNat 0 then "\\0"
  else if c = '\t' then "\\t"
  else if c = '\r' then "\\r"
  else if c = '\n' then "\\n"
  else if c = '\\' then "\\\\"
  else if c = '"' then "\\\""
  else if isExtender c || !isPrintable c then "\\u\x7b" ++ hex c.toNat ++ "\x7d"
  else String.singleton c

/-- A text between double quotes. -/
def quoted (s : String) : String :=
  s.foldl (fun out c => out ++ quotedChar c) "\"" ++ "\""

/-- A record with labelled fields. -/
def record (name : String) (fields : List (String × String)) : String :=
  name ++ " \x7b " ++ ", ".intercalate (fields.map fun f => f.1 ++ ": " ++ f.2) ++ " \x7d"

/-- A list between brackets. -/
def bracketed (items : List String) : String := "[" ++ ", ".intercalate items ++ "]"

end Text
end RpcFlow
