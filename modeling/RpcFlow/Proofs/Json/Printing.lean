import RpcFlow.Json.Printer

/-!
# Reading printed texts back

A printed string ends where its closing quote is, so a text that begins with one begins with no other;
and the digits of a number end before the first character that is not one.

* `Json.unescape` — takes one escaped character off a text; `unescape_escapeChar` says that it takes back
  what was written.
* `Json.quoteChars_append_inj`, `digits_append_inj` — what begins a text is determined by the text;
  after a number the text must go on with something else, which `Ends` says.
-/

set_option autoImplicit false

namespace RpcFlow
namespace Json

/-- The value of a hexadecimal digit in lower case. -/
def hexValue (c : Char) : Nat :=
  if c.toNat < 'a'.toNat then c.toNat - '0'.toNat else c.toNat - 'a'.toNat + 10

/-- The character that an escape with a letter stands for. -/
def escaped (letter : Char) : Char :=
  if letter = 'n' then '\n'
  else if letter = 'r' then '\r'
  else if letter = 't' then '\t'
  else if letter = 'b' then Char.ofNat 8
  else if letter = 'f' then Char.ofNat 12
  else letter

/-- Takes the first character of a text inside quotes, escaped or not. -/
def unescape : List Char → Option (Char × List Char)
  | '\\' :: 'u' :: _ :: _ :: a :: b :: rest => some (Char.ofNat (16 * hexValue a + hexValue b), rest)
  | '\\' :: letter :: rest => some (escaped letter, rest)
  | c :: rest => some (c, rest)
  | [] => none

theorem unescape_letter {c letter : Char} (h : letter ≠ 'u') (hc : c = escaped letter)
    (rest : List Char) : unescape ('\\' :: letter :: rest) = some (c, rest) := by
  rw [unescape.eq_2, hc]
  intro x y a b rest' hl
  exact absurd hl h

theorem unescape_plain {c : Char} (h : c ≠ '\\') (rest : List Char) :
    unescape (c :: rest) = some (c, rest) := by
  rw [unescape.eq_3]
  · intro x y a b rest' hc
    exact absurd hc h
  · intro letter rest' hc
    exact absurd hc h

/-- A control character is read back from its code. -/
theorem hexValue_hexDigit {n : Nat} (h : n < 32) :
    16 * hexValue (hexDigit (n / 16)) + hexValue (hexDigit (n % 16)) = n := by
  have hall : ∀ n : Fin 32, 16 * hexValue (hexDigit (n.val / 16)) +
      hexValue (hexDigit (n.val % 16)) = n.val := by decide
  exact hall ⟨n, h⟩

/-- What was written for a character is read as that character. -/
theorem unescape_escapeChar (c : Char) (rest : List Char) :
    unescape (escapeChar c ++ rest) = some (c, rest) := by
  have hchar : ∀ n : Nat, c.toNat = n → c = Char.ofNat n := fun n h => by
    rw [← h, Char.ofNat_toNat]
  unfold escapeChar
  split
  · exact unescape_letter (by decide) ‹_› rest
  split
  · exact unescape_letter (by decide) ‹_› rest
  split
  · exact unescape_letter (by decide) ‹_› rest
  split
  · exact unescape_letter (by decide) ‹_› rest
  split
  · exact unescape_letter (by decide) ‹_› rest
  split
  · exact unescape_letter (by decide) (hchar 8 ‹_›) rest
  split
  · exact unescape_letter (by decide) (hchar 12 ‹_›) rest
  split
  · rename_i h
    have hu : ∀ a b : Char, unescape ('\\' :: 'u' :: '0' :: '0' :: a :: b :: rest) =
        some (Char.ofNat (16 * hexValue a + hexValue b), rest) := fun _ _ => rfl
    refine (hu _ _).trans ?_
    rw [hexValue_hexDigit h, Char.ofNat_toNat]
  · rename_i hslash _ _ _ _ _ _
    exact unescape_plain hslash rest

/-- Inside a string there is no quote that is not escaped. -/
theorem escapeChar_head (c : Char) : ∃ x xs, escapeChar c = x :: xs ∧ x ≠ '"' := by
  unfold escapeChar
  split
  · exact ⟨_, _, rfl, by decide⟩
  · rename_i h
    repeat' split
    all_goals first | exact ⟨_, _, rfl, by decide⟩ | exact ⟨_, _, rfl, h⟩

theorem escaped_append_inj {s t u v : List Char}
    (h : s.flatMap escapeChar ++ '"' :: u = t.flatMap escapeChar ++ '"' :: v) : s = t ∧ u = v := by
  have hend : ∀ {c : Char} {cs u v : List Char},
      '"' :: u ≠ (c :: cs).flatMap escapeChar ++ '"' :: v := by
    intro c cs u v h
    obtain ⟨x, xs, hx, hne⟩ := escapeChar_head c
    rw [List.flatMap_cons, hx] at h
    injection h with h₁ h₂
    exact hne h₁.symm
  induction s generalizing t with
  | nil =>
    cases t with
    | nil => exact ⟨rfl, by injection h⟩
    | cons d t => exact absurd h hend
  | cons c s ih =>
    cases t with
    | nil => exact absurd h.symm hend
    | cons d t =>
      rw [List.flatMap_cons, List.flatMap_cons, List.append_assoc, List.append_assoc] at h
      have hread := congrArg unescape h
      rw [unescape_escapeChar, unescape_escapeChar] at hread
      injection hread with hread
      injection hread with hc hrest
      obtain ⟨hst, huv⟩ := ih hrest
      exact ⟨by rw [hc, hst], huv⟩

/-- **A text that begins with a printed string begins with no other.** -/
theorem quoteChars_append_inj {s t u v : List Char} (h : quoteChars s ++ u = quoteChars t ++ v) :
    s = t ∧ u = v := by
  unfold quoteChars at h
  rw [List.cons_append, List.cons_append, List.append_assoc, List.append_assoc] at h
  injection h with _ h
  exact escaped_append_inj h

end Json

/-- A text that does not begin with a digit. -/
def Ends : List Char → Prop
  | [] => True
  | c :: _ => c.isDigit = false

/-- **A text that begins with a number, and not with a longer one, begins with no other.** -/
theorem digits_append_inj {m n : Nat} {u v : List Char} (hu : Ends u) (hv : Ends v)
    (h : Nat.toDigits 10 m ++ u = Nat.toDigits 10 n ++ v) : m = n ∧ u = v := by
  have hdigits : ∀ {k : Nat} {w : List Char}, Ends w →
      (Nat.toDigits 10 k ++ w).takeWhile Char.isDigit = Nat.toDigits 10 k := by
    intro k w hw
    have hrest : w.takeWhile Char.isDigit = [] := by
      cases w with
      | nil => rfl
      | cons c w => exact List.takeWhile_cons_of_neg (Bool.not_eq_true _ ▸ hw)
    rw [List.takeWhile_append_of_pos, hrest, List.append_nil]
    exact fun x hx => Nat.isDigit_of_mem_toDigits (by decide) (by decide) hx
  have heq : Nat.toDigits 10 m = Nat.toDigits 10 n := by
    rw [← hdigits hu, h, hdigits hv]
  refine ⟨?_, ?_⟩
  · rw [← Nat.ofDigitChars_toDigits (n := m) (b := 10) (by decide) (by decide), heq,
      Nat.ofDigitChars_toDigits (by decide) (by decide)]
  · rw [heq] at h
    exact List.append_cancel_left h

end RpcFlow
