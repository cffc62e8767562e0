import MachineMonitor.Machine
import MachineMonitor.Proofs.Outcome

/-!
# Writing to the machine in place

The writes to a machine as programs, with the check of the name or of the width in front and one
byte after the other.

Results:
* `putRegister_run`, `putMemory_run`, `putWord_run`: what the programs do.
-/

namespace MachineMonitor.Machine

/-- Writes a register unless it is the zero register. -/
def putRegister (name : String) (value : UInt32) : EStateM MachineError Machine Unit := do
  match Register.ofName? name with
  | none => throw (.unknownRegister name)
  | some r =>
    if r ≠ .zero then
      modify fun m => { m with registers := m.registers.setIfInBounds r value }

theorem putRegister_run (m : Machine) (name : String) (value : UInt32) :
    (putRegister name value).run m =
      orKeep m ((m.setRegister name value).map fun m' => ((), m')) := by
  unfold putRegister setRegister
  cases Register.ofName? name with
  | none => rfl
  | some r =>
    by_cases hr : r = .zero
    · subst hr
      rfl
    · dsimp only
      rw [if_neg hr, if_pos hr]
      rfl

/-- Writes bytes of a value one after the other. -/
def putBytes {ε : Type} (address value : UInt32) : List Nat → EStateM ε Machine Unit
  | [] => return
  | i :: indices => do
    modify fun m =>
      { m with memory := m.memory.set (address + UInt32.ofNat i) (Memory.byteOf value i) }
    putBytes address value indices

theorem putBytes_run {ε : Type} (m : Machine) (address width value : UInt32) :
    (putBytes address value (List.range width.toNat) : EStateM ε _ _).run m =
      .ok () { m with memory := m.memory.store address width.toNat value } := by
  unfold Memory.store
  generalize List.range width.toNat = indices
  induction indices generalizing m with
  | nil => rfl
  | cons i indices ih => exact ih { m with memory := m.memory.set _ _ }

/-- Checks the width and writes as many bytes of a value. -/
def putMemory (address width value : UInt32) : EStateM MachineError Machine Unit := do
  unless isWritableWidth width do throw (.unsupportedWidth width)
  putBytes address value (List.range width.toNat)

theorem putMemory_run (m : Machine) (address width value : UInt32) :
    (putMemory address width value).run m =
      orKeep m ((m.writeMemory address width value).map fun m' => ((), m')) := by
  unfold putMemory writeMemory
  cases isWritableWidth width with
  | false => rfl
  | true => exact m.putBytes_run address width value

/-- Writes a whole word. -/
def putWord {ε : Type} (address value : UInt32) : EStateM ε Machine Unit :=
  putBytes address value (List.range wordBytes.toNat)

theorem putWord_run {ε : Type} (m : Machine) (address value : UInt32) :
    (putWord address value : EStateM ε Machine Unit).run m = .ok () (m.writeWord address value) :=
  m.putBytes_run address wordBytes value

end MachineMonitor.Machine
