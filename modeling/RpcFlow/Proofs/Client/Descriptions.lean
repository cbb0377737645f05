import Mathlib.Data.List.Nodup
import RpcFlow.Client.Basic
import RpcFlow.Proofs.Request.Building
import RpcFlow.Proofs.Request.Text

/-!
# What a client makes of calls

A client describes one call after the other.  A description is determined by the declared method, by
the parameters and by the request id, which no two descriptions share; what the client adds of its own,
the headers and the transport and the size of batches, says only how the request travels.

* `Method.body_null`, `Method.body_obj`, `Method.body_whole` — the body of a call, by the kind of its
  parameters.
* `Client.Describes` — what is in the description of a call of a method.
* `Client.describeAll` — the descriptions of a list of calls; `Client.describes_of_mem` says what they
  are and `Client.nodup_ids` that their ids differ.
* `Client.method?_register` — the declared methods are found under their names.
-/

set_option autoImplicit false

namespace RpcFlow

/-! ## Bodies -/

namespace Request

/-- A request with other parameters. -/
structure Alike (r r' : Request) : Prop where
  id : r'.id = r.id
  method : r'.method = r.method

end Request

namespace Method

variable {m : Method} {id : Nat}

/-- A call starts from the defaults. -/
theorem addParameters_defaults (m : Method) (id : Nat) :
    (Request.bare id m.name).addParameters m.defaults = .ok (.named id m.name m.defaults) :=
  Request.addParameters_named [] m.defaults

theorem body_null (m : Method) (id : Nat) : m.body id .null = .ok (.named id m.name m.defaults) := by
  rw [body, addParameters_defaults]
  rfl

theorem body_obj (m : Method) (id : Nat) (members : List (String × Json)) :
    m.body id (.obj members) = .ok (.named id m.name (m.defaults ++ members)) := by
  rw [body, addParameters_defaults]
  exact Request.addParameters_named m.defaults members

theorem body_whole {value : Json} (hnull : value ≠ .null) (hobj : ∀ members, value ≠ .obj members) :
    m.body id value = (Request.named id m.name m.defaults).setWhole value := by
  rw [body, addParameters_defaults]
  cases value with
  | null => exact absurd rfl hnull
  | obj members => exact absurd rfl (hobj members)
  | _ => rfl

/-- The body of a call names the method and bears the id it was given. -/
theorem alike_body {params : Json} {r : Request} (h : m.body id params = .ok r) :
    (Request.bare id m.name).Alike r := by
  by_cases hnull : params = .null
  · subst hnull
    rw [body_null] at h
    cases h
    exact ⟨rfl, rfl⟩
  by_cases hobj : ∃ members, params = .obj members
  · obtain ⟨members, rfl⟩ := hobj
    rw [body_obj] at h
    cases h
    exact ⟨rfl, rfl⟩
  · rw [body_whole hnull (not_exists.1 hobj), Request.setWhole] at h
    split at h
    · cases h
    · cases h
      exact ⟨rfl, rfl⟩

end Method

/-- A descriptor that was built carries the request, its texts and the options. -/
theorem Descriptor.eq_of_build {codec : Codec} {request : Request} {transport : String} {cell : Nat}
    {o : Options} {d : Descriptor} (h : build codec request transport cell o = .ok d) :
    ∃ flat key, codec.encode request.toJson = .ok flat ∧
      codec.encode request.canonical.toJson = .ok key ∧
      d = { method := request.method
            http := o.http
            query := o.query.getD [(methodQuery, request.method)]
            request
            flat
            cacheKey := key
            resultType := o.resultType
            transport
            strategy := o.strategy.getD (Strategy.fallback cell)
            expiresAfter := o.expiresAfter
            envelope := o.envelope
            headers := o.headers
            bindable := o.bindable
            maxBatchSize := max o.maxBatchSize 1 } := by
  unfold build at h
  cases hf : codec.encode request.toJson with
  | error error => simp [hf, bind, Except.bind] at h
  | ok flat =>
    cases hk : codec.encode request.canonical.toJson with
    | error error => simp [hf, hk, bind, Except.bind] at h
    | ok key =>
      simp only [hf, hk, bind, Except.bind, pure, Except.pure, Except.ok.injEq] at h
      exact ⟨flat, key, rfl, rfl, h.symm⟩

namespace Client

/-! ## One call -/

/-- The description of a call of a method: the body and its texts, and the choices of the method. -/
structure Describes (m : Method) (params : Json) (d : Descriptor) : Prop where
  body : m.body d.request.id params = .ok d.request
  method : d.method = d.request.method
  flat : d.flat = d.request.text
  cacheKey : d.cacheKey = d.request.canonical.text
  http : d.http = m.http
  type : d.resultType = .any
  strategy : d.strategy = m.strategy
  envelope : d.envelope = m.envelope
  size : 1 ≤ d.maxBatchSize

theorem encode_eq {codec : Codec} {value : Json} {text : String}
    (h : codec.encode value = .ok text) : text = value.render := by
  cases codec with
  | refusing => exact absurd h (by simp [Codec.encode])
  | standard => exact (Except.ok.inj h).symm
  | unchecked => exact (Except.ok.inj h).symm

/-- A description is built from the body of a declared method, and it takes the next id. -/
theorem build_of_describe {c : Client} {id : Nat} {name : String} {params : Params} {type : ResultType}
    {d : Descriptor} (h : (c.describe id name params type).1 = .ok d) :
    ∃ m value request, c.method? name = some m ∧ params = .ok value ∧ m.body id value = .ok request ∧
      (Descriptor.build c.snapshot.2.codec request c.snapshot.2.transport 0
        (c.snapshot.2.options m type c.snapshot.1) = .ok d) ∧
      (c.describe id name params type).2.1 = id + 1 := by
  unfold describe at h ⊢
  cases hm : c.method? name with
  | none => rw [hm] at h; exact absurd h (by simp)
  | some m =>
    cases params with
    | error reason => rw [hm] at h; exact absurd h (by simp)
    | ok value =>
      cases hb : m.body id value with
      | error error => simp only [hm, hb] at h; exact absurd h (by simp)
      | ok request =>
        simp only [hm, hb] at h ⊢
        split at h
        · exact absurd h (by simp)
        · rename_i d' hbuild
          cases h
          exact ⟨m, value, request, rfl, rfl, hb, hbuild, rfl⟩

theorem describe_ok {c : Client} {id : Nat} {name : String} {params : Params} {d : Descriptor}
    (h : (c.describe id name params .any).1 = .ok d) :
    ∃ m value, c.method? name = some m ∧ params = .ok value ∧ Describes m value d ∧
      d.request.id = id ∧ (c.describe id name params .any).2.1 = id + 1 := by
  obtain ⟨m, value, request, hm, hp, hb, hbuild, hnext⟩ := build_of_describe h
  obtain ⟨flat, key, hf, hk, rfl⟩ := Descriptor.eq_of_build hbuild
  have hid : request.id = id := (Method.alike_body hb).id
  refine ⟨m, value, hm, hp, ?_, hid, hnext⟩
  exact ⟨by rw [hid]; exact hb, rfl, encode_eq hf, encode_eq hk, rfl, rfl, rfl, rfl,
    Nat.le_max_right _ 1⟩

/-- A description leaves the methods as they are, and it takes one id at most. -/
theorem describe_frame (c : Client) (id : Nat) (name : String) (params : Params)
    (type : ResultType) :
    (c.describe id name params type).2.2.methods = c.methods ∧
      id ≤ (c.describe id name params type).2.1 ∧ (c.describe id name params type).2.1 ≤ id + 1 := by
  have hsnapshot : c.snapshot.2.methods = c.methods := by
    unfold snapshot
    split <;> rfl
  unfold describe
  split
  · exact ⟨rfl, Nat.le_refl id, Nat.le_succ id⟩
  split
  · exact ⟨rfl, Nat.le_refl id, Nat.le_succ id⟩
  split
  · exact ⟨rfl, Nat.le_succ id, Nat.le_refl _⟩
  simp only
  split
  · exact ⟨hsnapshot, Nat.le_succ id, Nat.le_refl _⟩
  · exact ⟨hsnapshot, Nat.le_succ id, Nat.le_refl _⟩

/-! ## All calls -/

/-- A call with its description. -/
structure Described where
  name : String
  params : Params
  descriptor : Descriptor

/-- Describes calls one after the other, with ids from `id` on; a call that cannot be described is
left out. -/
def describeAll (c : Client) (id : Nat) : List (String × Params) → List Described
  | [] => []
  | call :: rest =>
    ((c.describe id call.1 call.2 .any).1.toOption.map fun d => ⟨call.1, call.2, d⟩).toList ++
      describeAll (c.describe id call.1 call.2 .any).2.2 (c.describe id call.1 call.2 .any).2.1 rest

/-- What was described is a call of a declared method. -/
theorem describes_of_mem {c : Client} {id : Nat} {calls : List (String × Params)} {x : Described}
    (h : x ∈ c.describeAll id calls) :
    ∃ m value, c.method? x.name = some m ∧ x.params = .ok value ∧ Describes m value x.descriptor := by
  induction calls generalizing c id with
  | nil => exact absurd h List.not_mem_nil
  | cons call rest ih =>
    rcases List.mem_append.1 h with h | h
    · cases hd : (c.describe id call.1 call.2 .any).1 with
      | error error => rw [hd] at h; exact absurd h List.not_mem_nil
      | ok d =>
        rw [hd] at h
        cases List.mem_singleton.1 h
        obtain ⟨m, value, hm, hp, hdesc, -⟩ := describe_ok hd
        exact ⟨m, value, hm, hp, hdesc⟩
    · obtain ⟨m, value, hm, hp, hdesc⟩ := ih h
      rw [method?, (describe_frame c id call.1 call.2 .any).1] at hm
      exact ⟨m, value, hm, hp, hdesc⟩

/-- The ids are those from `id` on. -/
theorem id_of_mem {c : Client} {id : Nat} {calls : List (String × Params)} {x : Described}
    (h : x ∈ c.describeAll id calls) :
    id ≤ x.descriptor.request.id ∧ x.descriptor.request.id < id + calls.length := by
  induction calls generalizing c id with
  | nil => exact absurd h List.not_mem_nil
  | cons call rest ih =>
    obtain ⟨-, hle, hle'⟩ := describe_frame c id call.1 call.2 .any
    rw [List.length_cons]
    rcases List.mem_append.1 h with h | h
    · cases hd : (c.describe id call.1 call.2 .any).1 with
      | error error => rw [hd] at h; exact absurd h List.not_mem_nil
      | ok d =>
        rw [hd] at h
        cases List.mem_singleton.1 h
        obtain ⟨-, -, -, -, -, hid, -⟩ := describe_ok hd
        simp only [hid]
        omega
    · have hrest := ih h
      omega

/-- **No two descriptions share an id.** -/
theorem nodup_ids (c : Client) (id : Nat) (calls : List (String × Params)) :
    ((c.describeAll id calls).map fun x => x.descriptor.request.id).Nodup := by
  induction calls generalizing c id with
  | nil => exact List.nodup_nil
  | cons call rest ih =>
    rw [describeAll, List.map_append, List.nodup_append]
    refine ⟨?_, ih _ _, fun a ha b hb => ?_⟩
    · cases (c.describe id call.1 call.2 .any).1.toOption <;> simp
    · cases hd : (c.describe id call.1 call.2 .any).1 with
      | error error => rw [hd] at ha; exact absurd ha List.not_mem_nil
      | ok d =>
        rw [hd] at ha
        obtain ⟨-, -, -, -, -, hid, hnext⟩ := describe_ok hd
        cases List.mem_singleton.1 ha
        obtain ⟨y, hy, rfl⟩ := List.mem_map.1 hb
        have hle := (id_of_mem hy).1
        simp only [hid]
        omega

/-! ## Declared methods -/

/-- A method is found under its name, if it was declared. -/
theorem method?_register {ms : List Method} {base : Client} (hb : base.methods = []) {name : String}
    {m : Method} (h : (ms.foldl register base).method? name = some m) : m ∈ ms ∧ m.name = name := by
  have hall : ∀ (ms : List Method) (c : Client), (ms.foldl register c).method? name = some m →
      (m ∈ ms ∧ m.name = name) ∨ c.method? name = some m := by
    intro ms
    induction ms with
    | nil => exact fun c h => .inr h
    | cons x ms ih =>
      intro c h
      rcases ih (c.register x) h with h | h
      · exact .inl ⟨List.mem_cons_of_mem x h.1, h.2⟩
      · rw [method?, register, Dict.at?_put] at h
        split at h
        · rename_i hx
          cases h
          exact .inl ⟨List.mem_cons_self, hx.symm⟩
        · exact .inr h
  rcases hall ms base h with h | h
  · exact h
  · rw [method?, hb] at h
    cases h

end Client
end RpcFlow
