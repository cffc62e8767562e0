import MachineMonitor.Proofs.Json.Members
import MachineMonitor.Proofs.Json.RoundTrip
import MachineMonitor.Proofs.Outcome
import MachineMonitor.Protocol.Response

/-!
# Responses are told apart by their fields

A response carries no tag, so reading it back rests on its fields: no kind of response that is tried
before its own is satisfied with them, whatever they hold. Records in lists are read back too.

Results:
* `Lossless.list`: a list of records that are read back is read back.
* `Response.ofMembers?_fields`: the fields of a response are read as this response.
* `Response.parse?_print_self`: so is its text, and no kind tried before its own accepts its fields.
-/

namespace MachineMonitor

open Json (Value Members)

/-! ## Records -/

/-- Records that are written readable and read back. -/
structure Lossless {α : Type} (write : α → Value) (read : Value → Option α) : Prop where
  read_write : ∀ a, read (write a) = some a
  readable : ∀ a levels, (write a).isReadable (levels + 1) = true

namespace Lossless

variable {α : Type} {write : α → Value} {read : Value → Option α}

theorem list (h : Lossless write read) (as : List α) :
    (Value.array (as.map write)).list? read = some as := by
  rw [Value.list?]
  induction as with
  | nil => rfl
  | cons a as ih => rw [List.map_cons, List.mapM_cons, h.read_write, ih]; rfl

theorem readable_list (h : Lossless write read) (as : List α) (levels : Nat) :
    (Value.array (as.map write)).isReadable (levels + 2) = true := by
  refine Value.isReadable_array fun v hv => ?_
  obtain ⟨a, -, rfl⟩ := List.mem_map.mp hv
  exact h.readable a levels

end Lossless

theorem Watchpoint.lossless : Lossless toJson ofJson? where
  read_write w := by
    simp [toJson, ofJson?, Members.ofFields_eq, Value.record?, Members.optional?, Members.haveKeys]
  readable w levels := Value.isReadable_ofFields (by simp)

theorem WatchChange.lossless : Lossless toJson ofJson? where
  read_write c := by
    simp [toJson, ofJson?, Members.ofFields_eq, Value.record?, Members.optional?, Members.haveKeys]
  readable c levels := Value.isReadable_ofFields (by simp)

theorem RegisterValue.lossless : Lossless toJson ofJson? where
  read_write r := by
    simp [toJson, ofJson?, Members.ofFields_eq, Value.record?, Members.optional?, Members.haveKeys]
  readable r levels := Value.isReadable_ofFields (by simp)

theorem MemoryWord.lossless : Lossless toJson ofJson? where
  read_write w := by
    simp [toJson, ofJson?, Members.ofFields_eq, Value.record?, Members.optional?, Members.haveKeys]
  readable w levels := Value.isReadable_ofFields (by simp)

namespace Response

/-! ## Kinds of response -/

/-- The reader for the kind of a response. -/
def reader : Response → Members → Option Response
  | evalResult _ _ => evalResult?
  | watch _ _ _ => watch?
  | watches _ => watches?
  | changes _ => changes?
  | registers _ => registers?
  | memory _ => memory?
  | success _ => success?
  | error _ => error?

/-- How many kinds are tried before the kind of a response. -/
def place : Response → Nat
  | evalResult _ _ => 0
  | watch _ _ _ => 1
  | watches _ => 2
  | changes _ => 3
  | registers _ => 4
  | memory _ => 5
  | success _ => 6
  | error _ => 7

theorem reader_fields (r : Response) : r.reader (Members.named r.fields) = some r := by
  cases r with
  | watches watchpoints =>
    simp [reader, fields, watches?, Members.required?, Watchpoint.lossless.list]
  | changes found => simp [reader, fields, changes?, Members.required?, WatchChange.lossless.list]
  | registers values =>
    simp [reader, fields, registers?, Members.required?, RegisterValue.lossless.list]
  | memory words => simp [reader, fields, memory?, Members.required?, MemoryWord.lossless.list]
  | evalResult value hex => simp [reader, fields, evalResult?, Members.required?]
  | watch id value expr => simp [reader, fields, watch?, Members.required?]
  | success ok => simp [reader, fields, success?, Members.required?, Value.bool?]
  | error message => simp [reader, fields, error?, Members.required?]

/-- Each kind asks for a key that no response of a later kind has. -/
theorem rejected_before (r : Response) :
    ∀ read ∈ readers.take r.place, read (Members.named r.fields) = none := by
  cases r <;>
    simp [place, readers, fields, evalResult?, watch?, watches?, changes?, registers?, memory?,
      success?, Members.required?]

theorem readers_eq (r : Response) :
    readers = readers.take r.place ++ r.reader :: readers.drop (r.place + 1) := by
  cases r <;> rfl

/-- **The fields of a response** are read as this response. -/
theorem ofMembers?_fields (r : Response) : ofMembers? (Members.named r.fields) = some r := by
  rw [ofMembers?, readers_eq r, List.findSome?_append,
    List.findSome?_eq_none_iff.mpr (rejected_before r), Option.none_or, List.findSome?_cons,
    reader_fields]

theorem isReadable_fields (r : Response) (levels : Nat) :
    ∀ f ∈ r.fields, f.2.isReadable (levels + 2) = true := by
  cases r with
  | watches watchpoints => simpa [fields] using Watchpoint.lossless.readable_list watchpoints levels
  | changes found => simpa [fields] using WatchChange.lossless.readable_list found levels
  | registers values => simpa [fields] using RegisterValue.lossless.readable_list values levels
  | memory words => simpa [fields] using MemoryWord.lossless.readable_list words levels
  | success ok => simp [fields, Value.isReadable]
  | _ => simp [fields]

/-- **A response that stands alone is read back from its text**, whatever its fields hold, and no
kind of response that is tried before its own accepts them. -/
theorem parse?_print_self (r : Response) :
    Response.parse? r.print = some r ∧
      (∀ read ∈ readers.take r.place, read (Members.named r.fields) = none) ∧
        readers[r.place]? = some r.reader := by
  refine ⟨?_, rejected_before r, by cases r <;> rfl⟩
  -- the object, a list in it and a record in that are three levels of 127
  have hread : (Value.ofFields r.fields).isReadable Value.maxLevels = true :=
    Value.isReadable_ofFields (isReadable_fields r 124)
  have hfields : ofJson? (Value.ofFields r.fields) = some r := ofMembers?_fields r
  rw [parse?, print, Value.parse?_print, Option.bind_eq_bind, Option.bind_some, guard_bind,
    if_pos hread]
  exact hfields

end Response

end MachineMonitor
