import RpcFlow.Proofs.Engine.Together

/-!
# The entries of an answer

What a combined call deals out, whatever the server answers.  Each request is given what the last entry
with its id comes to, or an error of its own if there is none; no other entry and no other request
matters to it.

* `Batch.entryFor` — the last entry that bears the id of a request.
* `Reader.share` — what a request is given out of an array; `Reader.SharesByEntry` says what that depends
  on.
* `Reader.Plain`, `Reader.plain_builtIn` — readers that neither crash nor word the error of a request
  without an entry, such as those that come with the client.
* `Reader.deals_by_entry` — what a combined call deals out.
-/

set_option autoImplicit false

namespace RpcFlow

/-! ## The entry of a request -/

namespace Batch

/-- Does an entry bear the id of the request? -/
def bears (p : Promise) (entry : Json) : Bool := entryId? entry == some p.descriptor.request.id

/-- Does an entry bear the id of one of the requests? -/
def wanted (ps : List Promise) (entry : Json) : Bool := ps.any (bears · entry)

/-- The last entry that bears the id of the request. -/
def entryFor (p : Promise) (answer : List Json) : Option Json := (answer.filter (bears p)).getLast?

variable {p : Promise} {answer answer' front back : List Json} {e e' : Json}

theorem lookup_entryFor (p : Promise) (answer : List Json) :
    (entriesById answer).lookup p.descriptor.request.id = entryFor p answer := by
  rw [lookup_entriesById, entryFor, List.getLast?_eq_head?_reverse, ← List.filter_reverse,
    List.head?_filter]
  rfl

theorem entryFor_of_last (he : bears p e) (hback : ∀ x ∈ back, bears p x = false) :
    entryFor p (front ++ e :: back) = some e := by
  have hnone : back.filter (bears p) = [] :=
    List.filter_eq_nil_iff.2 fun x hx => by simp [hback x hx]
  rw [entryFor, List.filter_append, List.filter_cons_of_pos he, hnone, List.getLast?_concat]

theorem entryFor_eq_none_iff : entryFor p answer = none ↔ ∀ x ∈ answer, bears p x = false := by
  simp [entryFor]

/-- Entries that bear different ids may come in any order. -/
theorem entryFor_perm (h : answer.Perm answer') (hn : (answer.filterMap entryId?).Nodup) :
    entryFor p answer = entryFor p answer' := by
  have hperm : (answer.filter (bears p)).Perm (answer'.filter (bears p)) := h.filter _
  have hids : (answer.filter (bears p)).filterMap entryId? =
      List.replicate (answer.filter (bears p)).length p.descriptor.request.id := by
    rw [← List.map_const', ← List.filterMap_eq_map]
    exact List.filterMap_congr fun x hx => beq_iff_eq.1 (List.mem_filter.1 hx).2
  have hone : (answer.filter (bears p)).length ≤ 1 := by
    rw [← List.nodup_replicate (a := p.descriptor.request.id), ← hids]
    exact hn.sublist (List.filter_sublist.filterMap _)
  unfold entryFor
  rcases Nat.le_one_iff_eq_zero_or_eq_one.1 hone with hzero | hsome
  · rw [List.length_eq_zero_iff.1 hzero] at hperm ⊢
    rw [List.nil_perm.1 hperm]
  · obtain ⟨x, hx⟩ := List.length_eq_one_iff.1 hsome
    rw [hx] at hperm ⊢
    rw [List.singleton_perm.1 hperm]

/-- Entries that do not bear the id make no difference. -/
theorem entryFor_congr {keep : Json → Bool} (hkeep : ∀ x, bears p x → keep x)
    (h : answer.filter keep = answer'.filter keep) : entryFor p answer = entryFor p answer' := by
  have hsame : ∀ l : List Json, (l.filter keep).filter (bears p) = l.filter (bears p) := fun l => by
    rw [List.filter_filter]
    refine List.filter_congr fun x _ => ?_
    cases hx : bears p x with
    | false => rfl
    | true => rw [hkeep x hx, Bool.true_and]
  rw [entryFor, entryFor, ← hsame, h, hsame]

theorem entryFor_replace (he : bears p e = false) (he' : bears p e' = false) :
    entryFor p (front ++ e :: back) = entryFor p (front ++ e' :: back) := by
  simp [entryFor, he, he']

end Batch

/-! ## Verdicts dealt out -/

/-- What is said of a request when no entry bears its id. -/
def unmatchedText : String := "responses ids not comparable with requests ids"

/-- What a request is given when no entry bears its id. -/
def unmatched (p : Promise) : Verdict := p.verdict (.fail (.conversion unmatchedText))

/-- Each of some promises has been given its verdict. -/
def Dealt (give : Promise → Verdict) (ps : List Promise) (deeds : List Deed) (ending : Ending) : Prop :=
  ∀ p ∈ ps, received? p deeds ending = some (give p)

section

variable {C : Contract} {give : Promise → Verdict} {p : Promise} {ps : List Promise}
  {isOpen : Promise → Bool} {k : Routine} {m : Move}

/-- A promise is used, and then the others are given their verdicts. -/
theorem ensures_dealt_cons (hn : ((p :: ps).map Promise.number).Nodup) (hopen : isOpen p = true)
    (hm : give p = p.verdict m) (hk : k.Ensures C (closing isOpen p) (Dealt give ps)) :
    k.Ensures C (closing isOpen p) fun deeds ending =>
      Dealt give (p :: ps) (.used p m (isOpen p) :: deeds) ending := by
  rw [List.map_cons, List.nodup_cons] at hn
  refine hk.mono fun deeds ending h q hq => ?_
  rw [hopen]
  rcases List.mem_cons.1 hq with rfl | hq
  · rw [received?_used_self, hm]
  · have hne : p.number ≠ q.number := fun heq => hn.1 (heq ▸ List.mem_map_of_mem hq)
    rw [received?_used_of_ne hne]
    exact h q hq

theorem ensures_failAll_dealt (error : CallError) (hn : (ps.map Promise.number).Nodup)
    (hopen : ∀ p ∈ ps, isOpen p = true) :
    (Stages.failAll error ps).Ensures C isOpen (Dealt (fun p => p.verdict (.fail error)) ps) := by
  induction ps generalizing isOpen with
  | nil => exact fun p hp => absurd hp List.not_mem_nil
  | cons p ps ih =>
    exact ensures_dealt_cons hn (hopen p List.mem_cons_self) rfl
      (ih (List.nodup_cons.1 hn).2 (open_closing hn hopen))

end

namespace Reader

variable {R : Reader} {C : Contract} {ps : List Promise} {isOpen : Promise → Bool}

/-- A reader that does not crash, and does not word the error of a request without an entry. -/
structure Plain (R : Reader) : Prop where
  reads : ∀ d x, R.Reads d x
  words : ∀ p x, R.verdict p x ≠ unmatched p

/-- What a request is given out of an array. -/
def share (R : Reader) (answer : List Json) (p : Promise) : Verdict :=
  match Batch.entryFor p answer with
  | some entry => R.verdict p entry
  | none => unmatched p

/-- The contract of a world with this reader, in which a call leads to this. -/
def facing (R : Reader) (ps : List Promise) (x : WireOutcome) : Contract :=
  { Contract.own ps with
    fetches := fun _ _ y => y = x
    decodes := fun body type y => y = R.decode body type
    validates := fun value y => y = R.validate value }

theorem backs_facing (x : WireOutcome) : R.Backs (R.facing ps x) := ⟨fun _ _ _ => id, fun _ _ => id⟩

theorem responsive_facing (x : WireOutcome) : (R.facing ps x).Responsive where
  fetches _ _ := ⟨x, rfl⟩
  reads _ := ⟨.done none, trivial⟩
  stores := ⟨.done (), trivial⟩
  decodes _ _ := ⟨_, rfl⟩
  validates _ := ⟨_, rfl⟩

/-- Each promise finds the entry of its request among those that the promises before it have left. -/
theorem ensures_settleEach_dealt (hC : R.Backs C) (hR : R.Plain) {entries : Batch.Entries}
    {answer : List Json} (hids : (ps.map fun p => p.descriptor.request.id).Nodup)
    (hfound : ∀ p ∈ ps, entries.lookup p.descriptor.request.id = Batch.entryFor p answer)
    (hn : (ps.map Promise.number).Nodup) (hopen : ∀ p ∈ ps, isOpen p = true) :
    (Stages.settleEach entries ps).Ensures C isOpen (Dealt (R.share answer) ps) := by
  induction ps generalizing entries isOpen with
  | nil =>
    have hend : (Routine.finish .ok).Ensures C isOpen (Dealt (R.share answer) []) :=
      fun p hp => absurd hp List.not_mem_nil
    exact Stages.ensures_reportAll hend _
  | cons p ps ih =>
    have hrest : (Stages.settleEach (Batch.takeEntry entries p.descriptor.request.id).2 ps).Ensures C
        (closing isOpen p) (Dealt (R.share answer) ps) :=
      ih (List.nodup_cons.1 hids).2 (Batch.lookup_takeEntry hids hfound) (List.nodup_cons.1 hn).2
        (open_closing hn hopen)
    have hused := hopen p List.mem_cons_self
    rw [Stages.settleEach, Batch.takeEntry, hfound p List.mem_cons_self]
    cases he : Batch.entryFor p answer with
    | none => exact ensures_dealt_cons hn hused (by rw [share, he]; rfl) hrest
    | some entry =>
      obtain ⟨m, hm⟩ := hR.reads p.descriptor entry
      refine ensures_settleWith hC (fun message hcrash => ?_) fun m' hm' => ?_
      · rw [hm] at hcrash
        cases hcrash
      · exact ensures_dealt_cons hn hused (by simp only [share, he, verdict, hm']) hrest

/-- What a combined call goes on with once its answer is decoded. -/
def decoded (ps : List Promise) : Outcome Json → Routine
  | .crashed message => .finish (.crashed message)
  | .failed error => Stages.failAll error ps
  | .done answer => Stages.settleAll ps answer

theorem ensures_answered (headers : Dict String) {response : Response} {give : Promise → Verdict}
    (hk : (decoded ps (R.decode (some response.body) .vecValue)).Ensures
      (R.facing ps (.answered response)) isOpen (Dealt give ps)) :
    (Stages.sendTogether ps headers).Ensures (R.facing ps (.answered response)) isOpen
      (Dealt give ps) := by
  cases ps with
  | nil => exact fun p hp => absurd hp List.not_mem_nil
  | cons first rest =>
    rintro x rfl
    refine Stages.ensures_announceAll _ ?_ _
    rintro y rfl
    exact hk

/-- The entries of the answer are dealt out. -/
theorem ensures_sendTogether_share (hR : R.Plain) (headers : Dict String)
    (hids : (ps.map fun p => p.descriptor.request.id).Nodup) (hn : (ps.map Promise.number).Nodup)
    (hopen : ∀ p ∈ ps, isOpen p = true) {response : Response} {answer : List Json}
    (hdecode : R.decode (some response.body) .vecValue = .done (.arr answer)) :
    (Stages.sendTogether ps headers).Ensures (R.facing ps (.answered response)) isOpen
      (Dealt (R.share answer) ps) := by
  refine ensures_answered headers ?_
  rw [hdecode]
  exact Stages.ensures_reportAll (ensures_settleEach_dealt (backs_facing _) hR hids
    (fun p _ => Batch.lookup_entryFor p answer) hn hopen) _

/-- An answer that is not an array leaves one error for all. -/
theorem ensures_sendTogether_unread (headers : Dict String) (hn : (ps.map Promise.number).Nodup)
    (hopen : ∀ p ∈ ps, isOpen p = true) {response : Response}
    (hx : ∀ answer, R.decode (some response.body) .vecValue ≠ .done (.arr answer)) :
    ∃ error, (Stages.sendTogether ps headers).Ensures (R.facing ps (.answered response)) isOpen
      (Dealt (fun p => p.verdict (.fail error)) ps) := by
  cases hd : R.decode (some response.body) .vecValue with
  | crashed message =>
    refine ⟨.crashed message, ensures_answered headers ?_⟩
    rw [hd]
    exact fun p _ => rfl
  | failed error =>
    refine ⟨error, ensures_answered headers ?_⟩
    rw [hd]
    exact ensures_failAll_dealt error hn hopen
  | done answer =>
    refine ⟨.conversion ("batch response is not an array: " ++ answer.render),
      ensures_answered headers ?_⟩
    rw [hd]
    cases answer with
    | arr items => exact absurd hd (hx items)
    | _ => exact ensures_failAll_dealt _ hn hopen

/-- So does a failed call. -/
theorem ensures_sendTogether_lost (headers : Dict String) (hn : (ps.map Promise.number).Nodup)
    (hopen : ∀ p ∈ ps, isOpen p = true) {x : WireOutcome} (hx : ∀ response, x ≠ .answered response) :
    ∃ error, (Stages.sendTogether ps headers).Ensures (R.facing ps x) isOpen
      (Dealt (fun p => p.verdict (.fail error)) ps) := by
  cases ps with
  | nil => exact ⟨.crashed "", fun p hp => absurd hp List.not_mem_nil⟩
  | cons first rest =>
    cases x with
    | answered response => exact absurd rfl (hx response)
    | crashed message =>
      refine ⟨.crashed message, ?_⟩
      rintro y rfl p -
      rfl
    | failed error =>
      refine ⟨error.toCallError, ?_⟩
      rintro y rfl
      exact ensures_failAll_dealt _ hn hopen

/-! ## The readers that come with the client -/

/-- The reader of a codec and a validator. -/
def builtIn (codec : Codec) (validator : Validator) : Reader where
  decode body type := .ofExcept (codec.decode body type)
  validate value := .ofExcept (validator.validate value)

/-- A reader that comes with the client does not crash, and its errors are declared by the server or
come from the envelope, the codec or the validator. -/
theorem appraise_builtIn (codec : Codec) (validator : Validator) (d : Descriptor) (x : Json) :
    ∃ m, (builtIn codec validator).appraise d x = .ok m ∧ ∀ error, m = .fail error →
      (∃ payload, error = .declared payload) ∨
      (∃ reason, d.envelope.unwrap x = .error (.malformed reason) ∧ error = .conversion reason) ∨
      (∃ raw, codec.decode raw d.resultType = .error error) ∨
      ∃ payload, validator.validate payload = .error error := by
  simp only [appraise, builtIn]
  cases hx : d.envelope.unwrap x with
  | error e =>
    cases e with
    | declared text => exact ⟨_, rfl, fun error h => .inl ⟨_, (Move.fail.inj h).symm⟩⟩
    | malformed reason =>
      exact ⟨_, rfl, fun error h => .inr (.inl ⟨_, rfl, (Move.fail.inj h).symm⟩)⟩
  | ok raw =>
    simp only
    cases hd : codec.decode raw d.resultType with
    | error e =>
      exact ⟨_, rfl, fun error h => .inr (.inr (.inl ⟨raw, hd.trans (Move.fail.inj h ▸ rfl)⟩))⟩
    | ok payload =>
      simp only [Outcome.ofExcept]
      cases hv : validator.validate payload with
      | error e =>
        exact ⟨_, rfl, fun error h =>
          .inr (.inr (.inr ⟨payload, hv.trans (Move.fail.inj h ▸ rfl)⟩))⟩
      | ok u => exact ⟨_, rfl, fun error h => by cases h⟩

variable {codec : Codec} {validator : Validator}

/-- A text that begins otherwise is another text. -/
theorem append_ne {a t : String} (h : ¬ a.toList <+: t.toList) (b : String) : a ++ b ≠ t := fun heq =>
  h ⟨b.toList, by rw [← String.toList_append, heq]⟩

theorem malformed_ne {form : Envelope} {x : Json} {reason : String}
    (h : form.unwrap x = .error (.malformed reason)) : reason ≠ unmatchedText := by
  unfold Envelope.unwrap at h
  cases ho : Envelope.opened x with
  | error e =>
    rw [ho] at h
    unfold Envelope.opened at ho
    split at ho
    · split at ho
      · cases ho
        cases h
      · cases ho
    · cases ho
      cases h
      exact append_ne (by decide) _
  | ok envelope =>
    rw [ho] at h
    simp only [bind, Except.bind] at h
    split at h
    · cases h
    · split at h
      · cases h
      · split at h <;> cases h
        decide
    · split at h <;> cases h

theorem readError_ne (e : Json.ReadError) : e.message ≠ unmatchedText := by
  simp only [Json.ReadError.message, String.append_assoc]
  cases e.fault <;> exact append_ne (by decide) _

theorem decode_ne {body : Option String} {type : ResultType} {reason : String}
    (h : codec.decode body type = .error (.conversion reason)) : reason ≠ unmatchedText := by
  have hcheck : ∀ value, (codec.checked type).check value = some reason → reason ≠ unmatchedText := by
    intro value hvalue
    unfold ResultType.check at hvalue
    split at hvalue
    · cases hvalue
    · obtain rfl := Option.some.inj hvalue
      rw [String.append_assoc, String.append_assoc]
      exact append_ne (by decide) _
  have hparse : ∀ text, Codec.parse text = .error (.conversion reason) → reason ≠ unmatchedText := by
    intro text htext
    unfold Codec.parse at htext
    split at htext
    · cases htext
    · cases htext
      exact readError_ne _
  unfold Codec.decode at h
  cases hbody : Codec.parseBody body with
  | error e =>
    rw [hbody] at h
    obtain rfl := Except.error.inj h
    cases body with
    | none => cases hbody
    | some text => exact hparse text hbody
  | ok value =>
    simp only [hbody, bind, Except.bind] at h
    split at h
    · cases h
    · rename_i hreason
      obtain rfl := CallError.conversion.inj (Except.error.inj h)
      exact hcheck value hreason

theorem validate_ne {payload : Json} {reason : String} :
    validator.validate payload ≠ .error (.conversion reason) := by
  unfold Validator.validate
  split <;> nofun

theorem plain_builtIn (codec : Codec) (validator : Validator) : (builtIn codec validator).Plain where
  reads d x := by
    obtain ⟨m, hm, -⟩ := appraise_builtIn codec validator d x
    exact ⟨m, hm⟩
  words p x := by
    obtain ⟨m, hm, herror⟩ := appraise_builtIn codec validator p.descriptor x
    simp only [verdict, hm]
    cases m with
    | fail error =>
      intro h
      obtain rfl : error = .conversion unmatchedText := (Verdict.failure.inj h).1
      rcases herror _ rfl with ⟨payload, h⟩ | ⟨reason, hx, h⟩ | ⟨raw, hdecode⟩ | ⟨payload, hvalidate⟩
      · cases h
      · exact malformed_ne hx (CallError.conversion.inj h).symm
      · exact decode_ne hdecode rfl
      · exact validate_ne hvalidate
    | _ =>
      intro h
      cases h

/-! ## What a combined call deals out -/

/-- What requests are given out of an array depends on the entries that bear their ids alone. -/
structure SharesByEntry (R : Reader) (ps : List Promise) (share : List Json → Promise → Verdict) :
    Prop where
  /-- A request is given what the last entry with its id comes to. -/
  found : ∀ p ∈ ps, ∀ front entry back, Batch.bears p entry → (∀ x ∈ back, Batch.bears p x = false) →
    share (front ++ entry :: back) p = R.verdict p entry
  /-- It is given an error of its own exactly if there is no such entry. -/
  missing : ∀ p ∈ ps, ∀ answer, share answer p = unmatched p ↔ ∀ x ∈ answer, Batch.bears p x = false
  /-- Entries with different ids may come in any order. -/
  order : ∀ answer answer', answer.Perm answer' → (answer.filterMap Batch.entryId?).Nodup →
    ∀ p ∈ ps, share answer p = share answer' p
  /-- Entries that bear no id of a request may be left out, or more of them put in anywhere. -/
  noise : ∀ answer answer', answer.filter (Batch.wanted ps) = answer'.filter (Batch.wanted ps) →
    ∀ p ∈ ps, share answer p = share answer' p
  /-- In place of the entry of one request may stand another one that is not for the others, and nothing
  changes for them. -/
  others : ∀ p ∈ ps, ∀ front entry entry' back, Batch.bears p entry →
    (∀ q ∈ ps, q ≠ p → Batch.bears q entry' = false) →
    ∀ q ∈ ps, q ≠ p → share (front ++ entry :: back) q = share (front ++ entry' :: back) q

/-- An entry bears the id of one request only. -/
theorem bears_of_ne (hids : (ps.map fun p => p.descriptor.request.id).Nodup) {p q : Promise}
    (hp : p ∈ ps) (hq : q ∈ ps) (hne : q ≠ p) {entry : Json} (h : Batch.bears p entry) :
    Batch.bears q entry = false := by
  rw [Batch.bears, beq_iff_eq.1 h, beq_eq_false_iff_ne]
  exact fun heq => hne (List.inj_on_of_nodup_map hids hp hq (Option.some.inj heq)).symm

theorem Plain.sharesByEntry (hR : R.Plain) (hids : (ps.map fun p => p.descriptor.request.id).Nodup) :
    R.SharesByEntry ps R.share where
  found p _ front entry back hentry hback := by
    rw [share, Batch.entryFor_of_last hentry hback]
  missing p _ answer := by
    rw [← Batch.entryFor_eq_none_iff, share]
    cases Batch.entryFor p answer with
    | none => exact iff_of_true rfl rfl
    | some entry => exact iff_of_false (hR.words p entry) nofun
  order answer answer' hperm hn p _ := by
    rw [share, share, Batch.entryFor_perm hperm hn]
  noise answer answer' h p hp := by
    have hkeep : ∀ x, Batch.bears p x → Batch.wanted ps x := fun x hx =>
      List.any_eq_true.2 ⟨p, hp, hx⟩
    rw [share, share, Batch.entryFor_congr hkeep h]
  others p hp front entry entry' back he he' q hq hne := by
    rw [share, share, Batch.entryFor_replace (bears_of_ne hids hp hq hne he) (he' q hq hne)]

/-- **A combined call deals out what the entries of the answer come to**, whatever the order of the
entries and whatever else there is; without an array it deals out one error to all. -/
theorem deals_by_entry (hR : R.Plain) (headers : Dict String)
    (hids : (ps.map fun p => p.descriptor.request.id).Nodup) (hn : (ps.map Promise.number).Nodup)
    (hopen : ∀ p ∈ ps, isOpen p = true) :
    (∃ share, R.SharesByEntry ps share ∧
      ∀ response answer, R.decode (some response.body) .vecValue = .done (.arr answer) →
        (Stages.sendTogether ps headers).Ensures (R.facing ps (.answered response)) isOpen
          (Dealt (share answer) ps)) ∧
    ∀ x, (∀ response answer, x = .answered response →
        R.decode (some response.body) .vecValue ≠ .done (.arr answer)) →
      ∃ error, (Stages.sendTogether ps headers).Ensures (R.facing ps x) isOpen
        (Dealt (fun p => p.verdict (.fail error)) ps) := by
  refine ⟨⟨R.share, hR.sharesByEntry hids, fun response answer hdecode =>
    ensures_sendTogether_share hR headers hids hn hopen hdecode⟩, fun x hx => ?_⟩
  cases x with
  | answered response =>
    exact ensures_sendTogether_unread headers hn hopen fun answer => hx _ answer rfl
  | _ => exact ensures_sendTogether_lost headers hn hopen nofun

/-- An answer to the second of two requests, and one that nobody waits for. -/
def halfAnswered : List Json :=
  [.obj [("id", .int 9), ("result", .str "lost")], .obj [("id", .int 2), ("result", .str "pong")]]

/-- The second request is given its result and the first one the error of its own. -/
theorem deals_by_entry_pair :
    standard.Plain ∧
    (standard.facing pair (.answered ⟨(Json.arr halfAnswered).render, []⟩)).Responsive ∧
    (Stages.sendTogether pair []).Ensures
      (standard.facing pair (.answered ⟨(Json.arr halfAnswered).render, []⟩)) (fun _ => true)
      fun deeds ending => received? (paired 1) deeds ending = some (unmatched (paired 1)) ∧
        received? (paired 2) deeds ending =
          some ((paired 2).verdict (.succeed (.str "pong") (some "\"pong\""))) := by
  have hids : (pair.map fun p => p.descriptor.request.id).Nodup := by decide
  have hplain : standard.Plain := plain_builtIn .standard .acceptAll
  obtain ⟨⟨share, hshare, hdeals⟩, -⟩ := deals_by_entry hplain [] hids (by decide) fun _ _ => rfl
  have hfirst : paired 1 ∈ pair := List.mem_cons_self
  have hsecond : paired 2 ∈ pair := List.mem_cons_of_mem _ List.mem_cons_self
  have hverdict : share halfAnswered (paired 2) =
      (paired 2).verdict (.succeed (.str "pong") (some "\"pong\"")) := by
    rw [halfAnswered]
    refine (hshare.found (paired 2) hsecond [_] _ [] (by decide) nofun).trans ?_
    decide +kernel
  refine ⟨hplain, responsive_facing _, (hdeals _ halfAnswered (by decide +kernel)).mono
    fun deeds ending h => ⟨?_, ?_⟩⟩
  · rw [h _ hfirst, (hshare.missing (paired 1) hfirst _).2 (by decide)]
  · rw [h _ hsecond, hverdict]

end Reader
end RpcFlow
