import MachineMonitor.Config

/-!
# Reading a configuration

Model of `MonitorConfig`, `LimitsConfig`, `WatchConfig`, `MachineConfig` and `MemoryWord` as they
are deserialized. The sections of a configuration are read in the same way from every format that
has records, lists and words. Every section and every field may be left out, but a memory word needs
both of its.
-/

namespace MachineMonitor

/-- A format that a configuration can be written in. -/
class ConfigSource (δ : Type) where
  /-- The fields of a record with these keys, each of which may be missing. -/
  record? : List String → δ → Option (List (Option δ))
  /-- The entries of a table with keys of any kind. -/
  entries? : δ → Option (List (String × δ))
  /-- The elements of a list. -/
  elements? : δ → Option (List δ)
  /-- A count that fits a 32-bit word. -/
  word? : δ → Option UInt32
  /-- A count that fits a 64-bit word. -/
  size? : δ → Option Nat

namespace Config

open ConfigSource

variable {δ : Type} [ConfigSource δ]

/-- Reads a field, or takes a default if it is missing. -/
def orDefault? {α : Type} (default : α) (read : δ → Option α) : Option δ → Option α
  | some v => read v
  | none => some default

/-- Reads the limits. -/
def readLimits? (v : δ) : Option Expr.Limits := do
  match ← record? ["max_tokens", "max_token_len"] v with
  | [maxTokens, maxTokenLen] =>
    let default : Expr.Limits := {}
    return ⟨← orDefault? default.maxTokens size? maxTokens,
      ← orDefault? default.maxTokenLen size? maxTokenLen⟩
  | _ => none

/-- Reads the number of watchpoints. -/
def readCapacity? (v : δ) : Option Nat := do
  match ← record? ["capacity"] v with
  | [capacity] => orDefault? Pool.defaultCapacity size? capacity
  | _ => none

/-- Reads registers by name; of several values for one name the last one counts. -/
def readRegisters? (v : δ) : Option (Std.ExtTreeMap String UInt32) := do
  (← entries? v).foldlM (fun registers (key, v) => return registers.insert key (← word? v)) ∅

/-- Reads a memory word. -/
def readMemoryWord? (v : δ) : Option MemoryWord := do
  match ← record? ["address", "value"] v with
  | [some address, some value] => return ⟨← word? address, ← word? value⟩
  | _ => none

/-- Reads memory words. -/
def readMemory? (v : δ) : Option (List MemoryWord) := do (← elements? v).mapM readMemoryWord?

/-- Reads what the machine holds. -/
def readMachine? (v : δ) : Option (Std.ExtTreeMap String UInt32 × List MemoryWord) := do
  match ← record? ["registers", "memory"] v with
  | [registers, memory] =>
    return (← orDefault? ∅ readRegisters? registers, ← orDefault? [] readMemory? memory)
  | _ => none

/-- Reads a configuration, valid or not. -/
def read? (v : δ) : Option Config := do
  match ← record? ["limits", "watch", "machine"] v with
  | [limits, watch, machine] =>
    let limits ← orDefault? {} readLimits? limits
    let capacity ← orDefault? Pool.defaultCapacity readCapacity? watch
    let (registers, memory) ← orDefault? (∅, []) readMachine? machine
    return { limits, capacity, registers, memory }
  | _ => none

end Config

end MachineMonitor
