import MachineMonitor.Proofs.Protocol.Message

/-!
# Reading requests back

A request is read back from its text, alone and in a message, and so it is when the members of the
message and those of its parameters stand in any other order, or when what has a default is left
out. The readers of its fields do not depend on the order of members, so each layout is read as the
one that is written.

Results:
* `Request.ofMembers?_perm`: what is read does not depend on the order of the members.
* `Request.ofParams?_of_hasParams`: any layout of the parameters is read as the request.
* `Request.parse?_of_hasFields`: so is any layout of a request that stands alone.
* `Message.parseRequest?_of_hasFields`: and any layout of a message.
* `Message.parseRequest?_printRequest`: all of these together.
-/

namespace MachineMonitor

open Json (Value Members)

theorem Method.ofName?_name (m : Method) : ofName? m.name = some m := by
  cases m <;> decide

namespace Request

/-! ## Layouts -/

/-- The parameters of a request in any order. The width of a write may be left out if it is that of
a word. -/
inductive HasParams : Request → List (String × Value) → Prop
  | ordered {r : Request} {params fields : List (String × Value)} (h : r.params? = some params)
      (hf : fields.Perm params) : HasParams r fields
  | defaultWidth {address value : UInt32} {fields : List (String × Value)}
      (hf : fields.Perm [("address", .natural address.toNat), ("value", .natural value.toNat)]) :
      HasParams (writeMemory address value wordBytes) fields

/-- The fields of a request in any order, its parameters in any order too. -/
inductive HasFields : Request → List (String × Value) → Prop
  | bare {r : Request} {fields : List (String × Value)} (h : r.params? = none)
      (hf : fields.Perm [("method", .text r.method.name)]) : HasFields r fields
  | withParams {r : Request} {params fields : List (String × Value)} (h : HasParams r params)
      (hf : fields.Perm [("method", .text r.method.name), ("params", .ofFields params)]) :
      HasFields r fields

/-- A request is written in one of its layouts. -/
theorem hasFields_fields (r : Request) : HasFields r r.fields := by
  unfold fields
  split
  · rename_i h
    exact .withParams (.ordered h .rfl) .rfl
  · rename_i h
    exact .bare h .rfl

/-! ## The order of members -/

theorem ofMembers?_perm {members members' : Members} (h : members.Perm members') :
    ofMembers? members = ofMembers? members' := by
  rw [ofMembers?, ofMembers?, Members.required?_perm h, Members.optional?_perm h]

theorem ofParams?_perm (method : Method) {members members' : Members}
    (h : members.Perm members') :
    ofParams? method (some (.object members)) = ofParams? method (some (.object members')) := by
  have hmembers : ∀ {α : Type} (f : Members → Option α), f members = f members' →
      (members? (some (.object members)) >>= f) = members? (some (.object members')) >>= f := by
    intro α f hf
    simp only [members?, Members.haveKeys_perm h]
    split
    · exact hf
    · rfl
  cases method with
  | watches | sweep | clear | registers | shutdown => rfl
  | _ =>
    simp only [ofParams?]
    apply hmembers
    simp only [Members.required?_perm h, Members.withDefault?_perm h]

/-! ## Reading a layout -/

theorem ofParams?_params {r : Request} {params : List (String × Value)}
    (h : r.params? = some params) : ofParams? r.method (some (.ofFields params)) = some r := by
  cases r <;> simp only [params?, Option.some.injEq, reduceCtorEq] at h <;> subst h <;>
    simp [ofParams?, method, members?, Members.ofFields_eq, Members.haveKeys, Members.required?,
      Members.withDefault?]

theorem ofParams?_bare {r : Request} (h : r.params? = none) :
    ofParams? r.method none = some r := by
  cases r <;> first | rfl | exact absurd h (by simp [params?])

theorem isReadable_params {r : Request} {params : List (String × Value)}
    (h : r.params? = some params) (levels : Nat) :
    ∀ f ∈ params, f.2.isReadable levels = true := by
  cases r <;> simp only [params?, Option.some.injEq, reduceCtorEq] at h <;> subst h <;> simp

/-- **Any layout of the parameters** is read as the request. -/
theorem ofParams?_of_hasParams {r : Request} {fields : List (String × Value)}
    (h : r.HasParams fields) : ofParams? r.method (some (.ofFields fields)) = some r := by
  cases h with
  | ordered h hf =>
    rw [← ofParams?_params h]
    exact ofParams?_perm r.method (Members.named_perm hf)
  | defaultWidth hf =>
    refine (ofParams?_perm .writeMemory (Members.named_perm hf)).trans ?_
    simp [ofParams?, members?, Members.haveKeys, Members.required?, Members.withDefault?]

theorem HasParams.isReadable {r : Request} {fields : List (String × Value)}
    (h : r.HasParams fields) (levels : Nat) : ∀ f ∈ fields, f.2.isReadable levels = true := by
  cases h with
  | ordered h hf => exact fun f hmem => isReadable_params h levels f (hf.mem_iff.mp hmem)
  | @defaultWidth address value _ hf =>
    have hall : ∀ f ∈ [("address", Value.natural address.toNat), ("value", .natural value.toNat)],
        f.2.isReadable levels = true := by simp
    exact fun f hmem => hall f (hf.mem_iff.mp hmem)

namespace HasFields

variable {r : Request} {fields : List (String × Value)}

/-- The method is found in any layout. -/
theorem required?_method (h : r.HasFields fields) {α : Type} (read : Value → Option α) :
    (Members.named fields).required? "method" read = read (.text r.method.name) := by
  cases h with
  | bare h hf | withParams h hf =>
    rw [Members.required?_perm (Members.named_perm hf)]
    simp [Members.required?]

/-- The parameters are found in any layout, and read. -/
theorem optional?_params (h : r.HasFields fields) :
    ∃ params, (Members.named fields).optional? "params" = some params ∧
      ofParams? r.method params = some r := by
  cases h with
  | bare h hf =>
    refine ⟨none, ?_, ofParams?_bare h⟩
    rw [Members.optional?_perm (Members.named_perm hf)]
    simp [Members.optional?]
  | @withParams params _ h hf =>
    refine ⟨some (.ofFields params), ?_, ofParams?_of_hasParams h⟩
    rw [Members.optional?_perm (Members.named_perm hf)]
    simp [Members.optional?]

theorem isReadable (h : r.HasFields fields) (levels : Nat) :
    ∀ f ∈ fields, f.2.isReadable (levels + 1) = true := by
  cases h with
  | bare h hf =>
    intro f hmem
    rw [List.mem_singleton.mp (hf.mem_iff.mp hmem)]
    exact Value.isReadable_text _ _
  | @withParams params _ h hf =>
    have hparams := Value.isReadable_ofFields (h.isReadable levels)
    have hall : ∀ f ∈ [("method", Value.text r.method.name), ("params", .ofFields params)],
        f.2.isReadable (levels + 1) = true := by simpa using hparams
    exact fun f hmem => hall f (hf.mem_iff.mp hmem)

theorem avoids_envelope (h : r.HasFields fields) : ∀ f ∈ fields, f.1 ∉ ["jsonrpc", "id"] := by
  cases h with
  | bare h hf | withParams h hf =>
    intro f hmem
    have hmem := hf.mem_iff.mp hmem
    simp only [List.mem_cons, List.not_mem_nil, or_false] at hmem
    rcases hmem with rfl | rfl <;> simp

end HasFields

/-- **Any layout of a request** in a message is read as the request. -/
theorem ofMembers?_of_hasFields {r : Request} {fields : List (String × Value)}
    (h : r.HasFields fields) : ofMembers? (Members.named fields) = some r := by
  obtain ⟨params, hparams, hread⟩ := h.optional?_params
  have hmethod : Method.ofContent? (.text r.method.name) = some r.method :=
    Method.ofName?_name r.method
  rw [ofMembers?, h.required?_method, hmethod, hparams]
  exact hread

/-! ## Requests that stand alone -/

theorem areParamsReadable_of_isReadable {members : Members}
    (h : ∀ m ∈ members, m.2.isReadable (Value.maxLevels - 1) = true) :
    areParamsReadable members = true := by
  unfold areParamsReadable
  split
  · rename_i hfound
    exact h _ (List.mem_of_find?_eq_some hfound)
  · rfl

/-- **Any layout of a request** that stands alone is read as the request. -/
theorem parse?_of_hasFields {r : Request} {fields : List (String × Value)}
    (h : r.HasFields fields) : Request.parse? (Value.ofFields fields).print = some r := by
  obtain ⟨params, hparams, hread⟩ := h.optional?_params
  have hmethod : Method.ofJson? (.text r.method.name) = some r.method :=
    Method.ofName?_name r.method
  have hreadable : areParamsReadable (Members.named fields) = true := by
    refine areParamsReadable_of_isReadable fun m hmem => ?_
    obtain ⟨f, hf, rfl⟩ := List.mem_map.mp hmem
    exact h.isReadable 125 f hf
  rw [Request.parse?, Value.parse?_print, Members.ofFields_eq]
  show ofJson? (.object (Members.named fields)) = some r
  rw [ofJson?, Members.haveKeys_named, hreadable, h.required?_method, hmethod, hparams]
  exact hread

end Request

/-! ## Requests in messages -/

namespace Message

/-- The fields of a message in any order, those of its request in any layout. -/
def HasFields (m : Message Request) (fields : List (String × Value)) : Prop :=
  ∃ content, m.content.HasFields content ∧ fields.Perm (envelope m.version m.id content)

theorem hasFields_envelope (m : Message Request) :
    m.HasFields (envelope m.version m.id m.content.fields) :=
  ⟨_, m.content.hasFields_fields, .rfl⟩

/-- **Any layout of a message** is read as the message. -/
theorem parseRequest?_of_hasFields {m : Message Request} {fields : List (String × Value)}
    (h : m.HasFields fields) : parseRequest? (Value.ofFields fields).print = some m := by
  obtain ⟨content, hcontent, hf⟩ := h
  have hread : (Value.ofFields (envelope m.version m.id content)).isReadable Value.maxLevels =
      true := isReadable_envelope (hcontent.isReadable 125)
  rw [parseRequest?, Members.ofFields_eq,
    parse?_perm (fun _ _ => Request.ofMembers?_perm) (Members.named_perm hf), ← Members.ofFields_eq,
    parse?_ofFields _ hread, ofMembers?_envelope _ _ _ hcontent.avoids_envelope,
    Request.ofMembers?_of_hasFields hcontent]
  rfl

/-- **A request is read back from its text**, in a message with any version and id and alone. The
members of the message and those of the parameters may stand in any order, and the width of a write
may be left out if it is that of a word. What is read from any object at all does not depend on the
order of its members. -/
theorem parseRequest?_printRequest (m : Message Request) :
    parseRequest? m.printRequest = some m ∧
    Request.parse? m.content.print = some m.content ∧
    (∀ fields, m.HasFields fields → parseRequest? (Value.ofFields fields).print = some m) ∧
    (∀ fields, m.content.HasFields fields →
      Request.parse? (Value.ofFields fields).print = some m.content) ∧
    ∀ members members' : Members, members.Perm members' →
      parseRequest? (Value.object members).print = parseRequest? (Value.object members').print := by
  refine ⟨?_, ?_, fun _ h => parseRequest?_of_hasFields h, fun _ h => Request.parse?_of_hasFields h,
    fun _ _ h => parse?_perm (fun _ _ => Request.ofMembers?_perm) h⟩
  · exact parseRequest?_of_hasFields m.hasFields_envelope
  · exact Request.parse?_of_hasFields m.content.hasFields_fields

/-- A write with its members in another order and the width left out, in a message and alone. -/
theorem parseRequest?_printRequest_reversed :
    parseRequest? (Value.ofFields
        [("params", .ofFields [("value", .natural 7), ("address", .natural 16)]),
          ("method", .text "write_memory"), ("id", .null), ("jsonrpc", .text "2.0")]).print =
      some ⟨"2.0", none, .writeMemory 16 7 wordBytes⟩ ∧
    Request.parse? (Value.ofFields
        [("params", .ofFields [("value", .natural 7), ("address", .natural 16)]),
          ("method", .text "write_memory")]).print = some (.writeMemory 16 7 wordBytes) ∧
    parseRequest? (Value.object [(some "method", .text "watches"), (some "jsonrpc", .null)]).print =
      parseRequest?
        (Value.object [(some "jsonrpc", .null), (some "method", .text "watches")]).print := by
  have hcontent : (Request.writeMemory 16 7 wordBytes).HasFields
      [("params", .ofFields [("value", .natural 7), ("address", .natural 16)]),
        ("method", .text "write_memory")] :=
    .withParams (.defaultWidth (.swap _ _ _)) (.swap _ _ _)
  have hmessage : (⟨"2.0", none, .writeMemory 16 7 wordBytes⟩ : Message Request).HasFields
      [("params", .ofFields [("value", .natural 7), ("address", .natural 16)]),
        ("method", .text "write_memory"), ("id", .null), ("jsonrpc", .text "2.0")] :=
    ⟨_, hcontent, (@List.perm_append_comm _ [_, _] [_, _]).trans (.swap _ _ _)⟩
  obtain ⟨-, -, hread, halone, hperm⟩ :=
    parseRequest?_printRequest ⟨"2.0", none, .writeMemory 16 7 wordBytes⟩
  exact ⟨hread _ hmessage, halone _ hcontent, hperm _ _ (.swap _ _ _)⟩

end Message

end MachineMonitor
