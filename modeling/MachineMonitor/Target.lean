/-!
# Inspected targets

Model of the trait `Machine`, of `UnknownRegister` and of `WORD_BYTES`: what the evaluator needs
from the thing it inspects, registers by name and memory by address. Nothing here says how a target
runs.

Idealised: what a read answers depends on the target and the place alone.
-/

namespace MachineMonitor

/-- The target has no register of this name. -/
structure UnknownRegister where
  name : String
  deriving DecidableEq, Repr

/-- The text shown for an unknown register name. -/
def UnknownRegister.message (e : UnknownRegister) : String := s!"Unknown register: '{e.name}'"

/-- The number of bytes in a memory word. -/
def wordBytes : UInt32 := 4

/-- A state whose registers and memory can be read. Reading never changes it. -/
class Target (τ : Type) where
  /-- Reads a register by its ABI name, without the leading `$`. -/
  readRegister : τ → String → Except UnknownRegister UInt32
  /-- Reads `width` bytes at an address. Which addresses are valid is the target's business. -/
  readMemory : τ → (address width : UInt32) → UInt32

/-- Reads the memory word at an address. -/
def Target.readWord {τ : Type} [Target τ] (t : τ) (address : UInt32) : UInt32 :=
  Target.readMemory t address wordBytes

end MachineMonitor
