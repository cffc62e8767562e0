import MachineMonitor.Config.Source
import MachineMonitor.Json.Decode
import MachineMonitor.Json.Parser

/-!
# Configuration as JSON

Model of `MonitorConfig` as it is read from JSON. Sections are records, so they may be arrays of
their fields. Keys that mean nothing are ignored, and what stands under them need only be
well-formed.
-/

namespace MachineMonitor

namespace Json.Value

/-- The members of an object whose keys all have a text. -/
def entries? : Value → Option (List (String × Value))
  | .object members => members.mapM fun (key, v) => key.map (·, v)
  | _ => none

instance : ConfigSource Value where
  record? := record?
  entries? := entries?
  elements? := list? some
  word? := word?
  size? := size?

end Json.Value

/-- Reads the text of a configuration, valid or not. -/
def Config.parseJson? (input : String) : Option Config := Json.Value.parse? input >>= Config.read?

end MachineMonitor
