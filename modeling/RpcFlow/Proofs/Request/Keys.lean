import RpcFlow.Proofs.Json.Distinct
import RpcFlow.Proofs.Request.Building
import RpcFlow.Proofs.Request.Text

/-!
# What the key of a request tells

The key of a request is its text without the id.  Requests are taken for each other if and only if their
keys are equal, so a key has to tell the method and the parameters, and nothing else: neither the id nor
how the parameters came to be what they are.

Doubles are left out: the two zeros agree and are written differently.

* `Request.isExact` — there is no double in the parameters.
* `Request.text_eq_iff`, `Request.canonical_text_eq_iff` — what the texts of two requests tell.
* `Request.Relisted` — two ways to list the same named parameters.
* `Request.Told`, `Request.key_identifies` — **the key identifies the request**.
-/

set_option autoImplicit false

namespace RpcFlow
namespace Request

variable {r s : Request}

/-! ## Requests without doubles -/

/-- Is there no double in the parameters? -/
def isExact (r : Request) : Bool := r.params.all Json.isExact

theorem agrees_iff (h : r.isExact = true) :
    r.agrees s = true ↔ r.method = s.method ∧ r.params = s.params := by
  rw [agrees, Bool.and_eq_true, beq_iff_eq]
  refine and_congr_right fun _ => ?_
  rw [isExact] at h
  cases hr : r.params with
  | none => cases s.params <;> simp
  | some p =>
    rw [hr, Option.all_some] at h
    cases s.params with
    | none => simp
    | some q => exact (Json.agrees_iff_eq h q).trans (Option.some_inj).symm

theorem params_eq_of_render (hr : r.isExact = true) (hs : s.isExact = true)
    (h : r.params.map Json.render = s.params.map Json.render) : r.params = s.params := by
  rw [isExact] at hr hs
  cases hp : r.params with
  | none =>
    cases hq : s.params with
    | none => rfl
    | some q => simp [hp, hq] at h
  | some p =>
    cases hq : s.params with
    | none => simp [hp, hq] at h
    | some q =>
      rw [hp, Option.all_some] at hr
      rw [hq, Option.all_some] at hs
      rw [hp, hq, Option.map_some, Option.map_some, Option.some_inj, Json.render_inj hr hs] at h
      rw [h]

/-- **The text of a request tells all of it.** -/
theorem text_eq_iff (hr : r.isExact = true) (hs : s.isExact = true) :
    r.text = s.text ↔ r.id = s.id ∧ r.method = s.method ∧ r.params = s.params := by
  constructor
  · intro h
    obtain ⟨hid, hmethod, hparams⟩ := text_inj h
    exact ⟨hid, hmethod, params_eq_of_render hr hs hparams⟩
  · rintro ⟨hid, hmethod, hparams⟩
    rw [text, text, toJson, toJson, hid, hmethod, hparams]

/-- **The text without the id tells the method and the parameters.** -/
theorem canonical_text_eq_iff (hr : r.isExact = true) (hs : s.isExact = true) :
    r.canonical.text = s.canonical.text ↔ r.method = s.method ∧ r.params = s.params := by
  have htext : r.canonical.text = s.canonical.text ↔
      0 = 0 ∧ r.method = s.method ∧ r.params = s.params :=
    text_eq_iff (r := r.canonical) (s := s.canonical) hr hs
  rw [htext, eq_self_iff_true, true_and]

/-! ## Ways to list parameters -/

/-- Two lists of named parameters that come to the same: each name is listed once and they differ in the
order only, or a value is left out that a later one replaces. -/
inductive Relisted : List (String × Json) → List (String × Json) → Prop
  | order {entries entries' : List (String × Json)} : entries.Perm entries' →
    (Dict.names entries).Nodup → Relisted entries entries'
  | overwritten (before : List (String × Json)) (name : String) (old : Json)
    (between : List (String × Json)) (new : Json) (after : List (String × Json)) :
    Relisted (before ++ (name, old) :: between ++ (name, new) :: after)
      (before ++ between ++ (name, new) :: after)

theorem Relisted.last?_eq {entries entries' : List (String × Json)} (h : Relisted entries entries')
    (name : String) : Dict.last? entries name = Dict.last? entries' name := by
  cases h with
  | order hperm hn => exact Dict.last?_perm hperm hn name
  | overwritten before key old between new after =>
    exact Dict.last?_overwritten before key old between new after name

/-! ## The result -/

/-- What the descriptors of two requests tell about these. -/
structure Told (r s : Request) (d e : Descriptor) : Prop where
  /-- Requests agree if they have the same method and the same parameters; to have none is not the same
  as to have null. -/
  agrees : r.agrees s = true ↔ r.method = s.method ∧ r.params = s.params
  /-- The keys are equal if the requests agree, whatever the ids. -/
  key : d.cacheKey = e.cacheKey ↔ r.agrees s = true
  /-- The texts are equal if the ids are equal as well. -/
  flat : d.flat = e.flat ↔ r.agrees s = true ∧ r.id = s.id

/-- **The key identifies the request.** -/
theorem key_identifies {i j : Nat} {method method' : String} {calls calls' : List Edit}
    (h : ((bare i method).run calls).isExact = true)
    (h' : ((bare j method').run calls').isExact = true) (transport transport' : String)
    (cell cell' : Nat) (o o' : Descriptor.Options) :
    ∃ d d', Descriptor.build .standard ((bare i method).run calls) transport cell o = .ok d ∧
      Descriptor.build .standard ((bare j method').run calls') transport' cell' o' = .ok d' ∧
      Told ((bare i method).run calls) ((bare j method').run calls') d d' ∧
      ∀ entries entries', method = method' →
        (bare i method).accepted calls = adds entries →
        (bare j method').accepted calls' = adds entries' →
        Relisted entries entries' → d.cacheKey = d'.cacheKey := by
  have hcodec : Codec.standard ≠ .refusing := by decide
  obtain ⟨d, hd, -, -, hflat, hkey, -⟩ :=
    Descriptor.exists_build hcodec ((bare i method).run calls) transport cell o
  obtain ⟨d', hd', -, -, hflat', hkey', -⟩ :=
    Descriptor.exists_build hcodec ((bare j method').run calls') transport' cell' o'
  refine ⟨d, d', hd, hd', { agrees := agrees_iff h, key := ?_, flat := ?_ }, ?_⟩
  · rw [hkey, hkey', canonical_text_eq_iff h h', agrees_iff h]
  · rw [hflat, hflat', text_eq_iff h h', agrees_iff h]
    exact and_comm
  · rintro entries entries' rfl hdone hdone' hrelisted
    have hr := (hdone ▸ made_run i method calls).eq_named
    have hs := (hdone' ▸ made_run j method calls').eq_named
    rw [hkey, hkey', hr, hs]
    have hbinds := binds_named i method entries
    exact canonical_text_congr rfl (hbinds.params_eq (binds_named j method entries') hrelisted.last?_eq)

/-- A limit given twice, around tags with a quote in them. -/
def revised : List Edit :=
  [.add "limit" (.int 1), .add "tags" (.arr [.str "a\"b", .null]), .whole .null, .add "limit" (.int (-5))]

/-- The same parameters in another order. -/
def settled : List Edit := [.add "tags" (.arr [.str "a\"b", .null]), .add "limit" (.int (-5))]

/-- A method called like a method with null for its parameters. -/
def lookalike : String := "m\",\"params\":null,\"x\":\""

/-- The limit that was replaced and the order leave no trace in the key; null is not the same as nothing,
and quotes in a name do not make it look like more than a name. -/
theorem key_identifies_revised :
    (∃ d d', Descriptor.build .standard ((bare 1 "find").run revised) "one" 0 .plain = .ok d ∧
      Descriptor.build .standard ((bare 2 "find").run settled) "two" 1 .plain = .ok d' ∧
      d.cacheKey = d'.cacheKey ∧ d.flat ≠ d'.flat) ∧
    (∃ d d', Descriptor.build .standard ((bare 1 "m").run []) "one" 0 .plain = .ok d ∧
      Descriptor.build .standard ((bare 1 "m").run [.whole .null]) "one" 0 .plain = .ok d' ∧
      d.cacheKey ≠ d'.cacheKey) ∧
    ∃ d d', Descriptor.build .standard ((bare 1 lookalike).run []) "one" 0 .plain = .ok d ∧
      Descriptor.build .standard ((bare 1 "m").run [.whole .null]) "one" 0 .plain = .ok d' ∧
      d.cacheKey ≠ d'.cacheKey := by
  have hrevised : ((bare 1 "find").run revised).isExact = true := by decide
  have hsettled : ((bare 2 "find").run settled).isExact = true := by decide
  have hnone : ((bare 1 "m").run []).isExact = true := rfl
  have hnull : ((bare 1 "m").run [.whole .null]).isExact = true := by decide
  have hlookalike : ((bare 1 lookalike).run []).isExact = true := rfl
  refine ⟨?_, ?_, ?_⟩
  · obtain ⟨d, d', hd, hd', htold, -⟩ := key_identifies hrevised hsettled "one" "two" 0 1 .plain .plain
    refine ⟨d, d', hd, hd', htold.key.2 (by decide), fun heq => ?_⟩
    exact absurd (htold.flat.1 heq).2 (by decide)
  · obtain ⟨d, d', hd, hd', htold, -⟩ := key_identifies hnone hnull "one" "one" 0 0 .plain .plain
    exact ⟨d, d', hd, hd', fun heq => absurd (htold.key.1 heq) (by decide)⟩
  · obtain ⟨d, d', hd, hd', htold, -⟩ :=
      key_identifies hlookalike hnull "one" "one" 0 0 .plain .plain
    exact ⟨d, d', hd, hd', fun heq => absurd (htold.key.1 heq) (by decide)⟩

end Request
end RpcFlow
