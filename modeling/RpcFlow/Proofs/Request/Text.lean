import RpcFlow.Proofs.Json.Printing
import RpcFlow.Request.Descriptor

/-!
# What the text of a request says

A request is sent as text, and its canonical text is the key that equivalent requests share.  So all
that a server can tell two requests apart by is in their texts, and so is all that equal keys agree in.

* `Request.text`, `Request.toList_text` — the text, and its parts.
* `Request.text_inj` — the text determines the id, the method and the text of the parameters.
* `Descriptor.exists_build` — the texts that a descriptor carries.
-/

set_option autoImplicit false

namespace RpcFlow
namespace Request

/-- The text of a request as it is sent. -/
def text (r : Request) : String := r.toJson.render

/-- What follows the method in the text of a request. -/
def tail : Option String → List Char
  | none => ['\x7d']
  | some params => ',' :: ("\"params\":".toList ++ (params.toList ++ ['\x7d']))

/-- The members of a request in the order of their names. -/
theorem toJson_eq (r : Request) : r.toJson = .obj
    (("id", .int r.id) :: ("jsonrpc", .str "2.0") :: ("method", .str r.method) ::
      (r.params.map fun p => ("params", p)).toList) := by
  have h₁ : ¬"jsonrpc" < "id" := by decide
  have h₂ : ¬"method" < "id" := by decide
  have h₃ : ¬"method" < "jsonrpc" := by decide
  have h₄ : ¬"params" < "id" := by decide
  have h₅ : ¬"params" < "jsonrpc" := by decide
  have h₆ : ¬"params" < "method" := by decide
  cases hp : r.params <;>
    simp [toJson, Json.object, Dict.ofEntries, Dict.overlay, Dict.put, hp, h₁, h₂, h₃, h₄, h₅, h₆]

/-- The text of a request, character by character. -/
theorem toList_text (r : Request) :
    r.text.toList = "\x7b\"id\":".toList ++ (Nat.toDigits 10 r.id ++
      ',' :: ("\"jsonrpc\":\"2.0\",\"method\":".toList ++
        (Json.quoteChars r.method.toList ++ tail (r.params.map Json.render)))) := by
  have hid : (Json.quote "id").toList = "\"id\"".toList := by decide
  have hversion : (Json.quote "jsonrpc").toList = "\"jsonrpc\"".toList := by decide
  have hnumber : (Json.quote "2.0").toList = "\"2.0\"".toList := by decide
  have hmethod : (Json.quote "method").toList = "\"method\"".toList := by decide
  have hparams : (Json.quote "params").toList = "\"params\"".toList := by decide
  have hquote : (Json.quote r.method).toList = Json.quoteChars r.method.toList := by
    rw [Json.quote, String.toList_ofList]
  have hdigits : (r.id : Int).repr.toList = Nat.toDigits 10 r.id := by
    rw [Int.repr_eq_if, if_pos (Int.natCast_nonneg _), Int.toNat_natCast, Nat.toList_repr]
  rw [text, toJson_eq]
  cases hp : r.params with
  | none =>
    simp [Json.render, Json.renderMembers, hid, hversion, hnumber, hmethod, hquote, hdigits, tail]
  | some p =>
    simp [Json.render, Json.renderMembers, hid, hversion, hnumber, hmethod, hparams, hquote, hdigits,
      tail]

/-- Nothing but the method and the parameters is in the text without the id. -/
theorem canonical_text_congr {r s : Request} (hmethod : r.method = s.method)
    (hparams : r.params = s.params) : r.canonical.text = s.canonical.text := by
  rw [text, text, toJson, toJson, canonical, canonical, hmethod, hparams]

theorem tail_inj {a b : Option String} (h : tail a = tail b) : a = b := by
  cases a with
  | none =>
    cases b with
    | none => rfl
    | some b => cases List.head_eq_of_cons_eq h
  | some a =>
    cases b with
    | none => cases List.head_eq_of_cons_eq h
    | some b =>
      have hab := List.append_cancel_right (List.append_cancel_left (List.tail_eq_of_cons_eq h))
      rw [String.toList_inj.1 hab]

/-- **The text of a request determines its id, its method and the text of its parameters.** -/
theorem text_inj {r s : Request} (h : r.text = s.text) :
    r.id = s.id ∧ r.method = s.method ∧ r.params.map Json.render = s.params.map Json.render := by
  have hchars := congrArg String.toList h
  rw [toList_text, toList_text] at hchars
  have hcomma : ∀ l, Ends (',' :: l) := fun _ => (by decide : ','.isDigit = false)
  obtain ⟨hid, hrest⟩ := digits_append_inj (hcomma _) (hcomma _) (List.append_cancel_left hchars)
  obtain ⟨hmethod, htail⟩ :=
    Json.quoteChars_append_inj (List.append_cancel_left (List.cons.inj hrest).2)
  exact ⟨hid, String.toList_inj.1 hmethod, tail_inj htail⟩

/-- A request is not sent as an array. -/
theorem text_ne_array (r : Request) (s : String) : r.text ≠ "[" ++ s := by
  intro h
  have hchars := congrArg String.toList h
  rw [toList_text, String.toList_append] at hchars
  cases List.head_eq_of_cons_eq hchars

end Request

/-- Every codec that writes at all writes the texts of the request. -/
theorem Descriptor.exists_build {codec : Codec} (h : codec ≠ .refusing) (r : Request)
    (transport : String) (cell : Nat) (o : Options) :
    ∃ d, build codec r transport cell o = .ok d ∧ d.method = r.method ∧ d.request = r ∧
      d.flat = r.text ∧ d.cacheKey = r.canonical.text ∧ d.bindable = o.bindable := by
  cases codec with
  | refusing => exact absurd rfl h
  | standard => exact ⟨_, rfl, rfl, rfl, rfl, rfl, rfl⟩
  | unchecked => exact ⟨_, rfl, rfl, rfl, rfl, rfl, rfl⟩

end RpcFlow
