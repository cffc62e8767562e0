import MachineMonitor.Json.Decode
import MachineMonitor.Memory
import MachineMonitor.Register
import MachineMonitor.Watch.Pool

/-!
# Records

Model of `Watchpoint`, `WatchChange`, `RegisterValue` and `MemoryValue` as they are serialized: the
things that stand in lists. Each is written as an object and read from an object or from an array of
its fields in order.
-/

namespace MachineMonitor

open Json (Value)

/-- Writes a watchpoint. -/
def Watchpoint.toJson (w : Watchpoint) : Value :=
  .ofFields [("id", .natural w.id.toNat), ("expression", .text w.expression),
    ("last_value", .natural w.lastValue.toNat)]

/-- Reads a watchpoint. -/
def Watchpoint.ofJson? (v : Value) : Option Watchpoint := do
  match ← v.record? ["id", "expression", "last_value"] with
  | [some id, some expression, some lastValue] =>
    return ⟨← id.word?, ← expression.string?, ← lastValue.word?⟩
  | _ => none

/-- Writes a change. -/
def WatchChange.toJson (c : WatchChange) : Value :=
  .ofFields [("id", .natural c.id.toNat), ("expression", .text c.expression),
    ("old_value", .natural c.oldValue.toNat), ("new_value", .natural c.newValue.toNat)]

/-- Reads a change. -/
def WatchChange.ofJson? (v : Value) : Option WatchChange := do
  match ← v.record? ["id", "expression", "old_value", "new_value"] with
  | [some id, some expression, some oldValue, some newValue] =>
    return ⟨← id.word?, ← expression.string?, ← oldValue.word?, ← newValue.word?⟩
  | _ => none

/-- Writes a register. -/
def RegisterValue.toJson (r : RegisterValue) : Value :=
  .ofFields [("name", .text r.name), ("value", .natural r.value.toNat)]

/-- Reads a register. -/
def RegisterValue.ofJson? (v : Value) : Option RegisterValue := do
  match ← v.record? ["name", "value"] with
  | [some name, some value] => return ⟨← name.string?, ← value.word?⟩
  | _ => none

/-- Writes a memory word. -/
def MemoryWord.toJson (w : MemoryWord) : Value :=
  .ofFields [("address", .natural w.address.toNat), ("value", .natural w.value.toNat)]

/-- Reads a memory word. -/
def MemoryWord.ofJson? (v : Value) : Option MemoryWord := do
  match ← v.record? ["address", "value"] with
  | [some address, some value] => return ⟨← address.word?, ← value.word?⟩
  | _ => none

end MachineMonitor
