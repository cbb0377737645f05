import RpcFlow.Proofs.Client.Descriptions
import RpcFlow.Proofs.Engine.Requests
import RpcFlow.Proofs.Request.Building

/-!
# Default parameters

A method may be declared with default parameters.  A call that gives named parameters, or none, binds
each name to its own value or else to the default; what it comes to is a map of names, and calls with the
same map are the same call: they have one key and share one task, whether a default is spelled out in
them or not.

* `Method.Declared` — how a method comes by its defaults.
* `Method.Merges`, `Method.merges` — the body of a call, whatever its parameters.
* `Engine.OneTask`, `Engine.oneTask_of_key` — what requests with one key have in common.
* `Client.merges_defaults` — **defaults are merged into calls**, and what follows for the key.
-/

set_option autoImplicit false

namespace RpcFlow

/-- Parameters that are named or null, so that they go together with defaults. -/
inductive Json.IsNamed : Json → Prop
  | null : IsNamed .null
  | obj {members : Dict Json} : Dict.Sorted members → IsNamed (.obj members)

namespace Method

variable {m : Method} {ds : List (String × Json)}

/-- A method that was declared with these default parameters, in this order; what else is set about it
leaves the defaults as they are. -/
inductive Declared : List (String × Json) → Method → Prop
  | plain (name : String) (cell : Nat) : Declared [] (.plain name cell)
  | default {ds : List (String × Json)} {m : Method} (name : String) (value : Json) : Declared ds m →
    Declared (ds ++ [(name, value)]) (m.withDefault name value)
  | setting {ds : List (String × Json)} {m m' : Method} : Declared ds m → m'.defaults = m.defaults →
    Declared ds m'

theorem Declared.defaults_eq (h : Declared ds m) : m.defaults = Dict.ofEntries ds := by
  induction h with
  | plain name cell => rfl
  | default name value _ ih =>
    rw [withDefault, ih, ← Dict.ofEntries_concat]
  | setting _ heq ih => rw [heq, ih]

/-- What a name is bound to in a call with these parameters: the value in the call, or else the default
that was declared last. -/
def effective (ds : List (String × Json)) (params : Json) (name : String) : Option Json :=
  (params.get? name).or (Dict.last? ds name)

/-- It makes no difference to spell defaults out. -/
theorem effective_of_defaults {members : Dict Json}
    (h : ∀ e ∈ members, Dict.last? ds e.1 = some e.2) (name : String) :
    effective ds (.obj members) name = effective ds .null name := by
  have hnull : effective ds .null name = Dict.last? ds name := Option.none_or
  rw [hnull, effective, Json.get?]
  cases hv : Dict.at? members name with
  | none => exact Option.none_or
  | some v => exact (h (name, v) (Dict.mem_of_at? hv)).symm

/-- The body of a call of a method that was declared with the defaults `ds`. -/
structure Merges (ds : List (String × Json)) (m : Method) : Prop where
  /-- Named parameters join the defaults and win over those of their names; only if there are neither
  there are no parameters. -/
  named : ∀ id members, Dict.Sorted members → ∃ r, m.body id (.obj members) = .ok r ∧ r.id = id ∧
    r.method = m.name ∧ (r.Binds fun name => (Dict.at? members name).or (Dict.last? ds name)) ∧
      (r.params = none ↔ members = [] ∧ ds = [])
  /-- Null stands for the defaults alone. -/
  null : ∀ id, ∃ r, m.body id .null = .ok r ∧ r.id = id ∧ r.method = m.name ∧
    r.Binds (Dict.last? ds) ∧ (r.params = none ↔ ds = [])
  /-- Any other value is the whole of the parameters, which leaves no room for defaults. -/
  whole : ∀ id value, value ≠ .null → (∀ members, value ≠ .obj members) →
    (ds = [] → ∃ r, m.body id value = .ok r ∧ r.id = id ∧ r.method = m.name ∧ r.params = some value) ∧
    (ds ≠ [] → m.body id value = .error .paramsAlreadySet)

theorem merges (h : Declared ds m) : Merges ds m := by
  have hlast : ∀ name, Dict.last? m.defaults name = Dict.last? ds name := fun name => by
    rw [h.defaults_eq, Dict.last?_of_sorted (Dict.sorted_ofEntries ds), Dict.at?_ofEntries]
  have hnil : m.defaults = [] ↔ ds = [] := by
    refine ⟨fun hm => Dict.eq_nil_of_last? fun name => ?_, fun hds => ?_⟩
    · rw [← hlast, hm, Dict.last?_nil]
    · rw [h.defaults_eq, hds]
      rfl
  refine { named := fun id members hsorted => ?_, null := fun id => ?_,
           whole := fun id value hnull hobj => ?_ }
  · refine ⟨_, body_obj m id members, rfl, rfl, ?_, ?_⟩
    · refine (Request.binds_named id m.name (m.defaults ++ members)).congr fun name => ?_
      rw [Dict.last?_append, Dict.last?_of_sorted hsorted, hlast]
    · rw [Request.params_named_eq_none_iff, List.append_eq_nil_iff, hnil, and_comm]
  · exact ⟨_, body_null m id, rfl, rfl, (Request.binds_named id m.name m.defaults).congr hlast,
      Request.params_named_eq_none_iff.trans hnil⟩
  · rw [body_whole hnull hobj]
    refine ⟨fun hds => ?_, fun hds => Request.setWhole_named (mt hnil.1 hds) value⟩
    rw [hnil.2 hds]
    exact ⟨_, Request.setWhole_bare value, rfl, rfl, rfl⟩

/-- The body of a call whose parameters are named or null. -/
theorem exists_body (h : Declared ds m) {params : Json} (hp : params.IsNamed) (id : Nat) :
    ∃ r, m.body id params = .ok r ∧ r.method = m.name ∧ r.Binds (effective ds params) := by
  cases hp with
  | null =>
    obtain ⟨r, hbody, -, hmethod, hbinds, -⟩ := (merges h).null id
    exact ⟨r, hbody, hmethod, hbinds⟩
  | obj hsorted =>
    obtain ⟨r, hbody, -, hmethod, hbinds, -⟩ := (merges h).named id _ hsorted
    exact ⟨r, hbody, hmethod, hbinds⟩

end Method

namespace Engine

/-- Of two requests the one joins the task of the other, and they never have two tasks. -/
structure OneTask (d d' : Descriptor) : Prop where
  /-- When the worker comes to the second request while the task of the first is under way, it answers
  with this task and makes no other. -/
  joins : ∀ {σ : Type} {env : Environment σ} {drift : σ → σ → Prop} {blocks : Stage → Block} {world : σ}
    {ds : List Descriptor} {e : Engine σ}, Runs env drift blocks world ds e → e.cancelled = false →
    ∀ (k i : Nat) (t : Task), ds[k]? = some d → e.replies[k]? = some (.task i) →
      e.tasks[i]? = some t → t.isFinished = false → ∀ (r : Nat) (rest : List Command),
        e.inbox = .submit d' r :: rest →
          ({ e with inbox := rest }.handle (.submit d' r)).replies[r]? = some (.task i) ∧
            ({ e with inbox := rest }.handle (.submit d' r)).tasks = e.tasks
  /-- If both requests have tasks under way, these are one. -/
  one : ∀ {σ : Type} {env : Environment σ} {drift : σ → σ → Prop} {blocks : Stage → Block} {world : σ}
    {ds : List Descriptor} {e : Engine σ}, Runs env drift blocks world ds e → e.cancelled = false →
    ∀ (k k' i i' : Nat) (t t' : Task), ds[k]? = some d → ds[k']? = some d' →
      e.replies[k]? = some (.task i) → e.replies[k']? = some (.task i') →
      e.tasks[i]? = some t → e.tasks[i']? = some t' → t.isFinished = false → t'.isFinished = false →
        i = i'

/-- **Requests with one key have one task**, if they may share it. -/
theorem oneTask_of_key {d d' : Descriptor} (hmethod : d.method = d'.method)
    (hkey : d.cacheKey = d'.cacheKey) (hb : d.bindable = true) (hb' : d'.bindable = true) :
    OneTask d d' where
  joins := by
    intro σ env drift blocks world ds e hrun hc k i t hk hr ht hf r rest hi
    have hs := hrun.serves hc hk hr ht hf hb
    rw [hmethod, hkey] at hs
    exact hrun.reachable.desk.joins hi hb' ht hs
  one := by
    intro σ env drift blocks world ds e hrun hc k k' i i' t t' hk hk' hr hr' ht ht' hf hf'
    have hs := hrun.serves hc hk hr ht hf hb
    rw [hmethod, hkey] at hs
    exact hrun.reachable.desk.unique i i' t t' _ _ ht ht' hs (hrun.serves hc hk' hr' ht' hf' hb')

end Engine

namespace Client

variable {c : Client} {m : Method} {ds : List (String × Json)}

theorem codec_snapshot (c : Client) : c.snapshot.2.codec = c.codec := by
  unfold snapshot
  split <;> rfl

/-- A call with a body is described, unless the codec writes nothing. -/
theorem exists_describe (hcodec : c.codec ≠ .refusing) {name : String} (hm : c.method? name = some m)
    {id : Nat} {params : Json} {r : Request} (hbody : m.body id params = .ok r) (type : ResultType) :
    ∃ d, (c.describe id name (.ok params) type).1 = .ok d ∧ d.method = r.method ∧
      d.cacheKey = r.canonical.text ∧ d.bindable = m.bindable := by
  rw [← codec_snapshot] at hcodec
  obtain ⟨d, hd, hmethod, -, -, hkey, hbindable⟩ := Descriptor.exists_build hcodec r
    c.snapshot.2.transport 0 (c.snapshot.2.options m type c.snapshot.1)
  refine ⟨d, ?_, hmethod, hkey, hbindable⟩
  simp only [describe, hm, hbody, hd]

/-- **Defaults are merged into calls.**  Calls of the method that bind the same names to the same values
have the same key, and share their task if the method lets them. -/
theorem merges_defaults (h : Method.Declared ds m) :
    Method.Merges ds m ∧
    ∀ (c c' : Client) (name name' : String), c.method? name = some m → c'.method? name' = some m →
      c.codec ≠ .refusing → c'.codec ≠ .refusing →
      ∀ params params' : Json, params.IsNamed → params'.IsNamed →
      (∀ key, Method.effective ds params key = Method.effective ds params' key) →
      ∀ (id id' : Nat) (type type' : ResultType),
        ∃ d d', (c.describe id name (.ok params) type).1 = .ok d ∧
          (c'.describe id' name' (.ok params') type').1 = .ok d' ∧ d.cacheKey = d'.cacheKey ∧
          (m.bindable = true → Engine.OneTask d d') := by
  refine ⟨Method.merges h, ?_⟩
  intro c c' name name' hm hm' hcodec hcodec' params params' hp hp' heq id id' type type'
  obtain ⟨r, hbody, hmethod, hbinds⟩ := Method.exists_body h hp id
  obtain ⟨r', hbody', hmethod', hbinds'⟩ := Method.exists_body h hp' id'
  obtain ⟨d, hd, hdr, hkey, hbindable⟩ := exists_describe hcodec hm hbody type
  obtain ⟨d', hd', hdr', hkey', hbindable'⟩ := exists_describe hcodec' hm' hbody' type'
  have hsame : d.cacheKey = d'.cacheKey := by
    rw [hkey, hkey']
    exact Request.canonical_text_congr (hmethod.trans hmethod'.symm) (hbinds.params_eq hbinds' heq)
  refine ⟨d, d', hd, hd', hsame, fun hb => ?_⟩
  have hnames : d.method = d'.method := by rw [hdr, hdr', hmethod, hmethod']
  exact Engine.oneTask_of_key hnames hsame (hbindable.trans hb) (hbindable'.trans hb)

/-- A method with a limit and a language to go with every call. -/
def catalogue : Method :=
  ((Method.plain "list" 0).withDefault "limit" (.int 10)).withDefault "lang" (.str "en")

/-- A client with that method. -/
def shop : Client := (plain "http").register catalogue

/-- An engine that works on a first request and has a second one next. -/
def halfway (d d' : Descriptor) : Engine Unit :=
  (({ ((Engine.start (fun _ => .passing) ()).submit d).2 with inbox := [] }.handle
    (.submit d 0)).submit d').2

theorem runs_halfway (d d' : Descriptor) :
    Engine.Runs .crashing (fun _ _ => False) (fun _ => .passing) () [d, d'] (halfway d d') := by
  refine .request d' (.step (.request d .start) (.work _ (.submit d 0) [] rfl rfl rfl) ?_)
  simp only [Engine.handle]
  rw [Array.size_setIfInBounds, Engine.accept_eq]

/-- A call that spells out the default limit has the key of a call without parameters and joins its
task. -/
theorem merges_defaults_spelled_out :
    Method.Declared [("limit", .int 10), ("lang", .str "en")] catalogue ∧
    catalogue.body 1 (.arr []) = .error .paramsAlreadySet ∧
    ∃ d d', (shop.describe 1 "list" (.ok .null) .any).1 = .ok d ∧
      (shop.describe 2 "list" (.ok (.obj [("limit", .int 10)])) .any).1 = .ok d' ∧
      d.cacheKey = d'.cacheKey ∧
      Engine.Runs .crashing (fun _ _ => False) (fun _ => .passing) () [d, d'] (halfway d d') ∧
      (halfway d d').inbox = [.submit d' 1] ∧
      ({ halfway d d' with inbox := [] }.handle (.submit d' 1)).replies[1]? = some (.task 0) := by
  have hdeclared : Method.Declared [("limit", .int 10), ("lang", .str "en")] catalogue :=
    .default _ _ (.default _ _ (.plain _ _))
  obtain ⟨hmerges, hshare⟩ := merges_defaults hdeclared
  refine ⟨hdeclared, (hmerges.whole 1 (.arr []) (by simp) (by simp)).2 (by simp), ?_⟩
  have heq : ∀ key, Method.effective [("limit", .int 10), ("lang", .str "en")]
      (.obj [("limit", .int 10)]) key = _ := Method.effective_of_defaults (by decide)
  obtain ⟨d, d', hd, hd', hkey, hone⟩ := hshare shop shop "list" "list" rfl rfl (by decide)
    (by decide) .null (.obj [("limit", .int 10)]) .null (.obj (by decide)) (fun key => (heq key).symm)
    1 2 .any .any
  have hrun := runs_halfway d d'
  refine ⟨d, d', hd, hd', hkey, hrun, ?_⟩
  cases hd
  cases hd'
  exact ⟨rfl, ((hone rfl).joins hrun rfl 0 0 _ rfl rfl rfl rfl 1 [] rfl).1⟩

end Client
end RpcFlow
