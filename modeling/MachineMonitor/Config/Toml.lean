import MachineMonitor.Config.Source
import MachineMonitor.Toml.Parser

/-!
# Configuration files

Model of `MonitorConfig::from_toml_str` and `MonitorConfig::load`. A section is a table, or an array
of its fields in order, of which there may be too many. Keys that mean nothing are ignored. A date
counts as a table in which no key means anything. A configuration file is read as UTF-8, and what it
says must be valid.
-/

namespace MachineMonitor

namespace Toml.Value

/-- The first so many elements, each of which may be missing. -/
def firsts {α : Type} (count : Nat) (elements : List α) : List (Option α) :=
  (List.range count).map (elements[·]?)

/-- The elements of an array, or the tables of an array of tables. -/
def elements? : Value → Option (List Value)
  | .array elements => some elements
  | .tables elements => some (elements.map (.table .header))
  | _ => none

/-- The fields of a record, each of which may be missing. -/
def record? (keys : List String) : Value → Option (List (Option Value))
  | .table _ entries => some (keys.map fun key => entries.lookup key)
  | .datetime => some (keys.map fun _ => none)
  | v => v.elements?.map (firsts keys.length)

/-- The entries of a table. -/
def entries? : Value → Option Entries
  | .table _ entries => some entries
  | _ => none

/-- A count. -/
def size? : Value → Option Nat
  | .integer n => if 0 ≤ n then some n.toNat else none
  | _ => none

/-- A count that fits a 32-bit word. -/
def word? (v : Value) : Option UInt32 := do
  let n ← v.size?
  if n < UInt32.size then some (UInt32.ofNat n) else none

instance : ConfigSource Value where
  record? := record?
  entries? := entries?
  elements? := elements?
  word? := word?
  size? := size?

end Toml.Value

namespace Config

/-- Reads the text of a configuration, valid or not. -/
def parseToml? (input : String) : Option Config := do
  let entries ← Toml.parse? input
  read? (Toml.Value.table .header entries)

/-- The valid configuration that a text holds. -/
def parse (input : String) : Except ConfigError Config :=
  match parseToml? input with
  | some c => c.validate
  | none => .error .malformed

/-- The valid configuration in a file, given the bytes of the file if it can be opened. -/
def load (file : Option ByteArray) : Except ConfigError Config :=
  match file >>= String.fromUTF8? with
  | some input => parse input
  | none => .error .unreadable

end Config

end MachineMonitor
