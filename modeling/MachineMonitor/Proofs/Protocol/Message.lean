import MachineMonitor.Proofs.Protocol.Response
import MachineMonitor.Protocol.Message

/-!
# Reading messages back

A message and its content share one object, so it is read back when the content has no key of the
envelope, in whichever order its members stand. Of all answers one has such a key: the answer to a
new watchpoint has an id of its own, and then the object has two.

Results:
* `ofMembers?_envelope`: a message is read from its members if its content is.
* `parse?_perm`: what is read does not depend on the order of the members.
* `parseResponse?_reply`: every answer is read back from its text, except the one to a new
  watchpoint, which repeats a key.
-/

namespace MachineMonitor

open Json (Value Members)

namespace Json.Members

@[simp] theorem without_cons (k : String) (v : Value) (members : Members) (keys : List String) :
    without ((some k, v) :: members) keys =
      if k ∈ keys then members.without keys else (some k, v) :: members.without keys := by
  by_cases h : k ∈ keys <;> simp [without, h]

end Json.Members

namespace Message

variable {α : Type}

/-! ## The envelope -/

/-- The members of a message whose content has these fields. -/
def envelope (version : String) (id : Option UInt64) (fields : List (String × Value)) :
    List (String × Value) :=
  ("jsonrpc", .text version) :: ("id", idToJson id) :: fields

theorem print_eq (fields : α → List (String × Value)) (m : Message α) :
    m.print fields = (Value.ofFields (envelope m.version m.id (fields m.content))).print := rfl

@[simp] theorem idOfJson?_idToJson (id : Option UInt64) : idOfJson? (idToJson id) = some id := by
  cases id with
  | none => rfl
  | some id =>
    simp [idToJson, idOfJson?, Value.natural, Value.size?, Value.below?, id.toNat_lt_size]

@[simp] theorem isReadable_idToJson (levels : Nat) (id : Option UInt64) :
    (idToJson id).isReadable levels = true := by
  cases id with
  | none => rfl
  | some id => exact Value.isReadable_natural levels id.toNat_lt_size

theorem isReadable_envelope {version : String} {id : Option UInt64}
    {fields : List (String × Value)} {levels : Nat}
    (h : ∀ f ∈ fields, f.2.isReadable levels = true) :
    (Value.ofFields (envelope version id fields)).isReadable (levels + 1) = true := by
  refine Value.isReadable_ofFields ?_
  simpa [envelope] using h

/-- **A message is read from its members** as its content is, if that has no key of the
envelope. -/
theorem ofMembers?_envelope (content? : Members → Option α) (version : String)
    (id : Option UInt64) {fields : List (String × Value)}
    (h : ∀ f ∈ fields, f.1 ∉ ["jsonrpc", "id"]) :
    ofMembers? content? (Members.named (envelope version id fields)) =
      (content? (Members.named fields)).map (⟨version, id, ·⟩) := by
  have hkey : ∀ key ∈ ["jsonrpc", "id"], (Members.named fields).under key = [] := by
    intro key hmem
    refine Members.under_named_eq_nil fun f hf heq => h f hf ?_
    rwa [heq]
  have hversion : (Members.named (envelope version id fields)).required? "jsonrpc" Value.string? =
      some version := by
    simp [envelope, Members.required?, hkey]
  have hid : (Members.named (envelope version id fields)).withDefault? "id" none idOfJson? =
      some id := by
    simp [envelope, Members.withDefault?, hkey]
  have hrest : (Members.named (envelope version id fields)).without ["jsonrpc", "id"] =
      Members.named fields := by
    simp [envelope, Members.without_named h]
  rw [ofMembers?, hversion, hid, hrest]
  cases content? (Members.named fields) <;> rfl

/-- A message whose content has an id of its own is not read. -/
theorem ofMembers?_repeated_id (content? : Members → Option α) (version : String)
    (id : Option UInt64) (v : Value) {fields : List (String × Value)} :
    ofMembers? content? (Members.named (envelope version id (("id", v) :: fields))) = none := by
  have hid : (Members.named (envelope version id (("id", v) :: fields))).withDefault? "id" none
      idOfJson? = none := by
    simp [envelope, Members.withDefault?]
  rw [ofMembers?, hid]
  cases Members.required? (Members.named (envelope version id (("id", v) :: fields))) "jsonrpc"
    Value.string? <;> rfl

/-! ## The order of members -/

theorem ofMembers?_perm {content? : Members → Option α}
    (hcontent : ∀ ms ms' : Members, ms.Perm ms' → content? ms = content? ms')
    {members members' : Members} (h : members.Perm members') :
    ofMembers? content? members = ofMembers? content? members' := by
  have hrest := hcontent _ _ (Members.without_perm h ["jsonrpc", "id"])
  unfold ofMembers?
  rw [Members.required?_perm h, Members.withDefault?_perm h, hrest]

theorem parse?_object (content? : Members → Option α) (members : Members) :
    parse? content? (Value.object members).print =
      if (Value.object members).isReadable Value.maxLevels then ofMembers? content? members
      else none := by
  rw [parse?, Value.parse?_print, Option.bind_eq_bind, Option.bind_some, guard_bind]

/-- **What is read does not depend on the order of the members**, if that of the content does
not. -/
theorem parse?_perm {content? : Members → Option α}
    (hcontent : ∀ ms ms' : Members, ms.Perm ms' → content? ms = content? ms')
    {members members' : Members} (h : members.Perm members') :
    parse? content? (Value.object members).print =
      parse? content? (Value.object members').print := by
  rw [parse?_object, parse?_object, Value.isReadable_object_perm h, ofMembers?_perm hcontent h]

theorem parse?_ofFields (content? : Members → Option α) {fields : List (String × Value)}
    (h : (Value.ofFields fields).isReadable Value.maxLevels = true) :
    parse? content? (Value.ofFields fields).print =
      ofMembers? content? (Members.named fields) := by
  rw [Members.ofFields_eq] at h ⊢
  rw [parse?_object, if_pos h]

end Message

/-! ## Answers -/

/-- Is this the answer to a new watchpoint? -/
def Response.isWatch : Response → Bool
  | watch _ _ _ => true
  | _ => false

theorem Response.fields_avoid_envelope {r : Response} (h : r.isWatch = false) :
    ∀ f ∈ r.fields, f.1 ∉ ["jsonrpc", "id"] := by
  cases r with
  | watch => exact absurd h (by simp [isWatch])
  | _ => simp [fields]

namespace Message

theorem nodup_keys_iff (m : Message Response) :
    ((Members.named (envelope m.version m.id m.content.fields)).map Prod.fst).Nodup ↔
      m.content.isWatch = false := by
  obtain ⟨version, id, content⟩ := m
  cases content <;> simp [envelope, Response.fields, Response.isWatch]

theorem parseResponse?_printResponse (m : Message Response) :
    parseResponse? m.printResponse = if m.content.isWatch then none else some m := by
  obtain ⟨version, id, content⟩ := m
  have hread : (Value.ofFields (envelope version id content.fields)).isReadable Value.maxLevels =
      true := isReadable_envelope (Response.isReadable_fields content 124)
  rw [parseResponse?, printResponse, print_eq, parse?_ofFields _ hread]
  cases hwatch : content.isWatch with
  | false =>
    rw [ofMembers?_envelope _ version id (Response.fields_avoid_envelope hwatch),
      Response.ofMembers?_fields]
    rfl
  | true =>
    cases content with
    | watch => exact ofMembers?_repeated_id _ version id _
    | _ => exact absurd hwatch (by simp [Response.isWatch])

/-- **Every answer is read back from its text** with the id of its request, and the text is an
object without repeated keys, except for the answer to a new watchpoint: there the id of the
watchpoint repeats the key of the id of the request, and the text is not read at all. -/
theorem parseResponse?_reply (id : UInt64) (r : Response) :
    (∃ members, Value.parse? (reply id r).printResponse = some (.object members) ∧
      ((members.map Prod.fst).Nodup ↔ r.isWatch = false)) ∧
    parseResponse? (reply id r).printResponse = if r.isWatch then none else some (reply id r) := by
  refine ⟨⟨_, ?_, nodup_keys_iff (reply id r)⟩, parseResponse?_printResponse (reply id r)⟩
  exact Value.parse?_print _

/-- The answer to a new watchpoint has two ids, and is not read back. -/
theorem reply_watch_repeats_id :
    (reply 7 (.watch 0 5 "$a0")).printResponse =
        "\x7b\"jsonrpc\":\"2.0\",\"id\":7,\"id\":0,\"value\":5,\"expr\":\"$a0\"\x7d" ∧
      parseResponse? (reply 7 (.watch 0 5 "$a0")).printResponse ≠
        some (reply 7 (.watch 0 5 "$a0")) := by
  refine ⟨by cbv, ?_⟩
  rw [parseResponse?_printResponse]
  simp [Response.isWatch, reply]

end Message

end MachineMonitor
