import MachineMonitor.Memory
import MachineMonitor.Register
import MachineMonitor.Target

/-!
# The built-in machine

Model of `SimpleMachine` (`set_register`, `write_memory`, `write_word`, `check_width`, and reading
as a `Machine`) and of `MachineError`: a register file and a byte memory that can be written as well
as inspected. The zero register accepts writes and ignores them; memory is written one, two or four
bytes at a time.

* A write that fails gives no machine; `Proofs/Machine/InPlace` has the writes that work in place.
-/

namespace MachineMonitor

/-- Why a write to the machine was refused. -/
inductive MachineError where
  | unknownRegister (name : String)
  | unsupportedWidth (width : UInt32)
  deriving DecidableEq, Repr

/-- The text shown for a refused write. -/
def MachineError.message : MachineError → String
  | unknownRegister name => UnknownRegister.message ⟨name⟩
  | unsupportedWidth width => s!"Unsupported access width: {width} bytes"

/-- The registers, x0 first, and the memory. -/
structure Machine where
  registers : Vector UInt32 32 := Vector.replicate 32 0
  memory : Memory := {}
  deriving DecidableEq

namespace Machine

/-- The value of a register. -/
def register (m : Machine) (r : Register) : UInt32 := m.registers.get r

/-- Writes a register; the zero register keeps its value. -/
def setRegister (m : Machine) (name : String) (value : UInt32) : Except MachineError Machine :=
  match Register.ofName? name with
  | none => .error (.unknownRegister name)
  | some r =>
    .ok (if r = .zero then m else { m with registers := m.registers.setIfInBounds r value })

/-- The widths, in bytes, that a write may have. -/
def isWritableWidth (width : UInt32) : Bool := width == 1 || width == 2 || width == 4

/-- Writes the low `width` bytes of a value. -/
def writeMemory (m : Machine) (address width value : UInt32) : Except MachineError Machine :=
  if isWritableWidth width then
    .ok { m with memory := m.memory.store address width.toNat value }
  else .error (.unsupportedWidth width)

/-- Writes a whole word. -/
def writeWord (m : Machine) (address value : UInt32) : Machine :=
  { m with memory := m.memory.store address wordBytes.toNat value }

/-- Reads a register by name. -/
def readRegister (m : Machine) (name : String) : Except UnknownRegister UInt32 :=
  match Register.ofName? name with
  | none => .error ⟨name⟩
  | some r => .ok (m.register r)

/-- Reads memory; a read wider than a word is cut to a word. -/
def readMemory (m : Machine) (address width : UInt32) : UInt32 :=
  m.memory.load address (min width wordBytes).toNat

instance : Target Machine where
  readRegister := readRegister
  readMemory := readMemory

end Machine

end MachineMonitor
