import Mathlib.Logic.Function.Basic
import MachineMonitor.Proofs.Machine.InPlace
import MachineMonitor.Proofs.Memory
import MachineMonitor.Proofs.Transcript

/-!
# The machine by its reference

The reference of a machine has a word under each register name and a byte at each address, all zero
at first. It says what a write is to do: which names and widths it accepts, which word or which
bytes it changes, and what it leaves alone. The machine keeps its registers in a vector and only the
bytes that were written, and after any writes it cannot be told from its reference.

Results:
* `bytes_setBytes_add`, `bytes_setBytes_of_ne`: what a write to the memory of the reference does.
* `put_run`: one write to a machine, made in place.
* `write_reference`: one write to a machine and to its reference.
* `readRegister_eq`, `toNat_readMemory`: what is read from a machine is in its reference.
* `readRegister_stateAfter`, `byte_stateAfter`: what a sequence of writes leaves alone.
* `attempt_writes_reference`: the machine and its reference, after every sequence of writes.
-/

namespace MachineMonitor

namespace Register

theorem name_inj {r r' : Register} : r.name = r'.name ↔ r = r' := by
  refine ⟨fun h => ?_, congrArg name⟩
  have hfound := congrArg ofName? h
  rw [ofName?_name, ofName?_name] at hfound
  exact Option.some.inj hfound

theorem toList_names : names.toList = all.map name := by decide

/-- The names that find a register are the names of the registers. -/
theorem ofName?_eq_none_iff {s : String} : ofName? s = none ↔ s ∉ names.toList := by
  rw [ofName?, List.find?_eq_none, toList_names, List.mem_map, not_exists]
  simp

theorem mem_names_of_ofName? {s : String} {r : Register} (h : ofName? s = some r) :
    s ∈ names.toList := by
  by_contra hunknown
  rw [ofName?_eq_none_iff.mpr hunknown] at h
  exact absurd h (by simp)

end Register

namespace Machine

/-! ## The reference -/

/-- A request to write to the machine. -/
inductive Write where
  | register (name : String) (value : UInt32)
  | memory (address width value : UInt32)
  | word (address value : UInt32)
  deriving DecidableEq, Repr

/-- A word under each register name and a byte at each address. -/
@[ext]
structure Reference where
  registers : String → UInt32 := fun _ => 0
  bytes : UInt32 → UInt8 := fun _ => 0

namespace Reference

/-- Writes bytes of a value: the one that lies `i` bytes behind the address, counted round the end
of the address space, becomes byte `i` of the value, the least significant one first. -/
def setBytes (r : Reference) (address : UInt32) (width : Nat) (value : UInt32) : Reference :=
  { r with bytes := fun a =>
      let i := (a - address).toNat
      if i < width then UInt8.ofNat (value.toNat / 256 ^ i) else r.bytes a }

/-- Writes a register: only the one that is named changes, and the zero register never does. -/
def setRegister (r : Reference) (name : String) (value : UInt32) : Reference :=
  if name = "$0" then r else { r with registers := Function.update r.registers name value }

/-- Writes to the reference. -/
def write (r : Reference) : Write → Except MachineError Reference
  | .register name value =>
    if name ∈ Register.names.toList then .ok (r.setRegister name value)
    else .error (.unknownRegister name)
  | .memory address width value =>
    if width = 1 ∨ width = 2 ∨ width = 4 then .ok (r.setBytes address width.toNat value)
    else .error (.unsupportedWidth width)
  | .word address value => .ok (r.setBytes address 4 value)

theorem bytes_setBytes_add (r : Reference) (address : UInt32) {width : Nat}
    (hwidth : width ≤ UInt32.size) (value : UInt32) {i : Nat} (hi : i < width) :
    (r.setBytes address width value).bytes (address + UInt32.ofNat i) =
      UInt8.ofNat (value.toNat / 256 ^ i) := by
  have hoffset : (address + UInt32.ofNat i - address).toNat = i :=
    (Memory.offset_eq_iff (by omega)).mp rfl
  simp only [setBytes, hoffset, hi, if_true]

theorem bytes_setBytes_of_ne (r : Reference) (address : UInt32) (width : Nat) (value : UInt32)
    {a : UInt32} (ha : ∀ i < width, a ≠ address + UInt32.ofNat i) :
    (r.setBytes address width value).bytes a = r.bytes a := by
  have hoffset : ¬ (a - address).toNat < width := by
    intro hlt
    refine ha _ hlt ?_
    rw [UInt32.ofNat_toNat, UInt32.add_comm, UInt32.sub_add_cancel]
  simp only [setBytes, hoffset, if_false]

end Reference

/-- Writes to the machine. -/
def write (m : Machine) : Write → Except MachineError Machine
  | .register name value => m.setRegister name value
  | .memory address width value => m.writeMemory address width value
  | .word address value => .ok (m.writeWord address value)

/-- Writes to the machine in place. -/
def put : Write → EStateM MachineError Machine Unit
  | .register name value => putRegister name value
  | .memory address width value => putMemory address width value
  | .word address value => putWord address value

theorem put_run (m : Machine) (w : Write) :
    (put w).run m = orKeep m ((m.write w).map fun m' => ((), m')) := by
  cases w with
  | register name value => exact m.putRegister_run name value
  | memory address width value => exact m.putMemory_run address width value
  | word address value => exact m.putWord_run address value

/-- The reference of a machine. -/
def reference (m : Machine) : Reference where
  registers name :=
    match Register.ofName? name with
    | some r => m.register r
    | none => 0
  bytes := m.memory.byte

/-! ## Writing -/

theorem registers_eq (m : Machine) {name : String} {r : Register}
    (h : Register.ofName? name = some r) : m.reference.registers name = m.register r := by
  simp only [reference, h]

theorem reference_default : reference {} = {} := by
  refine Reference.ext ?_ ?_
  · funext name
    show (match Register.ofName? name with
      | some r => register {} r
      | none => 0) = 0
    split
    · exact Vector.getElem_replicate _
    · rfl
  · funext a
    exact Memory.byte_empty a

theorem register_set (m : Machine) (r r' : Register) (value : UInt32) :
    register { m with registers := m.registers.setIfInBounds r value } r' =
      if r = r' then value else m.register r' := by
  show (m.registers.setIfInBounds r value)[r'.val] = _
  rw [Vector.getElem_setIfInBounds]
  simp only [← Fin.ext_iff]
  rfl

/-- The reference sees the register that is written, and the zero register as it was. -/
theorem reference_set (m : Machine) (r : Register) (value : UInt32) :
    reference (if r = .zero then m else { m with registers := m.registers.setIfInBounds r value }) =
      m.reference.setRegister r.name value := by
  have hzero : r.name = "$0" ↔ r = .zero := by
    rw [show "$0" = Register.zero.name from rfl, Register.name_inj]
  unfold Reference.setRegister
  by_cases hr : r = .zero
  · rw [if_pos hr, if_pos (hzero.mpr hr)]
  rw [if_neg hr, if_neg fun h => hr (hzero.mp h)]
  refine Reference.ext ?_ rfl
  funext name
  show _ = Function.update m.reference.registers r.name value name
  by_cases hname : name = r.name
  · subst hname
    rw [Function.update_self, registers_eq _ (Register.ofName?_name r), register_set, if_pos rfl]
  rw [Function.update_of_ne hname]
  cases hfound : Register.ofName? name with
  | none => simp only [reference, hfound]
  | some r' =>
    have hne : r ≠ r' := by
      rintro rfl
      exact hname (Register.name_of_ofName? hfound).symm
    rw [registers_eq _ hfound, registers_eq _ hfound, register_set, if_neg hne]

theorem setRegister_reference (m : Machine) (name : String) (value : UInt32) :
    (m.setRegister name value).map reference = m.reference.write (.register name value) := by
  cases hname : Register.ofName? name with
  | none =>
    have hunknown := Register.ofName?_eq_none_iff.mp hname
    rw [setRegister, hname, Reference.write, if_neg hunknown]
    rfl
  | some r =>
    have hknown := Register.mem_names_of_ofName? hname
    obtain rfl := Register.name_of_ofName? hname
    rw [setRegister, hname, Reference.write, if_pos hknown]
    exact congrArg Except.ok (m.reference_set r value)

theorem store_reference (m : Machine) (address : UInt32) {width : Nat} (hwidth : width ≤ 4)
    (value : UInt32) :
    reference { m with memory := m.memory.store address width value } =
      m.reference.setBytes address width value := by
  refine Reference.ext rfl ?_
  funext a
  show (m.memory.store address width value).byte a = _
  rw [Memory.byte_store m.memory address (hwidth.trans (by decide))]
  unfold Reference.setBytes
  by_cases ha : (a - address).toNat < width
  · rw [if_pos ha, Memory.byteOf_eq value (by omega)]
    simp only [ha, if_true]
  · simp only [ha, if_false]
    rfl

theorem isWritableWidth_iff {width : UInt32} :
    isWritableWidth width = true ↔ width = 1 ∨ width = 2 ∨ width = 4 := by
  simp [isWritableWidth, or_assoc]

/-- **One write to a machine and to its reference**: both fail, with the same error, or both do the
same. -/
theorem write_reference (m : Machine) (w : Write) :
    (m.write w).map reference = m.reference.write w := by
  cases w with
  | register name value => exact m.setRegister_reference name value
  | memory address width value =>
    rw [write, writeMemory, Reference.write]
    by_cases hwidth : width = 1 ∨ width = 2 ∨ width = 4
    · have hle : width.toNat ≤ 4 := by rcases hwidth with rfl | rfl | rfl <;> decide
      rw [if_pos (isWritableWidth_iff.mpr hwidth), if_pos hwidth]
      exact congrArg Except.ok (m.store_reference address hle value)
    · rw [if_neg fun h => hwidth (isWritableWidth_iff.mp h), if_neg hwidth]
      rfl
  | word address value => exact congrArg Except.ok (m.store_reference address (by decide) value)

/-! ## Reading -/

theorem readRegister_eq (m : Machine) (name : String) :
    m.readRegister name =
      if name ∈ Register.names.toList then .ok (m.reference.registers name) else .error ⟨name⟩ := by
  cases hname : Register.ofName? name with
  | none =>
    rw [readRegister, hname, if_neg (Register.ofName?_eq_none_iff.mp hname)]
  | some r =>
    have hknown := Register.mem_names_of_ofName? hname
    rw [readRegister, hname, if_pos hknown, m.registers_eq hname]

theorem toNat_readMemory (m : Machine) (address width : UInt32) :
    (m.readMemory address width).toNat =
      ∑ i ∈ Finset.range (min width.toNat 4),
        (m.reference.bytes (address + UInt32.ofNat i)).toNat * 256 ^ i := by
  have hmin : (min width wordBytes).toNat = min width.toNat 4 := by
    show (if width ≤ wordBytes then width else wordBytes).toNat = min width.toNat 4
    by_cases h : width ≤ wordBytes
    · rw [if_pos h]
      exact (min_eq_left h).symm
    · rw [if_neg h]
      exact (min_eq_right (UInt32.lt_iff_toNat_lt.mp (UInt32.not_le.mp h)).le).symm
  rw [readMemory, hmin]
  exact Memory.toNat_load m.memory address (min_le_right _ _)

/-! ## What a write leaves alone -/

/-- The registers that a write changes; the zero register is none of them. -/
def Write.registers : Write → List String
  | .register name _ => if name = "$0" then [] else [name]
  | .memory .. | .word .. => []

/-- The addresses of the bytes that a write changes, if it is not refused. -/
def Write.bytes : Write → List UInt32
  | .register .. => []
  | .memory address width _ =>
    if isWritableWidth width then (List.range width.toNat).map fun i => address + UInt32.ofNat i
    else []
  | .word address _ => (List.range wordBytes.toNat).map fun i => address + UInt32.ofNat i

theorem Write.zero_not_mem_registers (w : Write) : "$0" ∉ w.registers := by
  cases w with
  | register name value =>
    rw [registers]
    by_cases hzero : name = "$0"
    · rw [if_pos hzero]
      exact List.not_mem_nil
    · rw [if_neg hzero, List.mem_singleton]
      exact Ne.symm hzero
  | memory | word => exact List.not_mem_nil

namespace Reference

theorem registers_attempt (r : Reference) {w : Write} {name : String} (h : name ∉ w.registers) :
    (attempt write r w).2.registers name = r.registers name := by
  cases w with
  | register name' value =>
    by_cases hknown : name' ∈ Register.names.toList
    · rw [attempt, write, if_pos hknown, setRegister]
      by_cases hzero : name' = "$0"
      · rw [if_pos hzero]
      · rw [Write.registers, if_neg hzero, List.mem_singleton] at h
        rw [if_neg hzero]
        exact Function.update_of_ne h value r.registers
    · rw [attempt, write, if_neg hknown]
  | memory address width value =>
    by_cases hwidth : width = 1 ∨ width = 2 ∨ width = 4
    · rw [attempt, write, if_pos hwidth]
      rfl
    · rw [attempt, write, if_neg hwidth]
  | word address value => rfl

theorem bytes_setBytes_of_not_mem (r : Reference) {address value a : UInt32} {width : Nat}
    (h : a ∉ (List.range width).map fun i => address + UInt32.ofNat i) :
    (r.setBytes address width value).bytes a = r.bytes a :=
  r.bytes_setBytes_of_ne address width value fun i hi ha =>
    h (List.mem_map.mpr ⟨i, List.mem_range.mpr hi, ha.symm⟩)

theorem bytes_attempt (r : Reference) {w : Write} {a : UInt32} (h : a ∉ w.bytes) :
    (attempt write r w).2.bytes a = r.bytes a := by
  cases w with
  | register name value =>
    by_cases hknown : name ∈ Register.names.toList
    · rw [attempt, write, if_pos hknown, setRegister]
      by_cases hzero : name = "$0"
      · rw [if_pos hzero]
      · rw [if_neg hzero]
    · rw [attempt, write, if_neg hknown]
  | memory address width value =>
    by_cases hwidth : width = 1 ∨ width = 2 ∨ width = 4
    · rw [Write.bytes, if_pos (isWritableWidth_iff.mpr hwidth)] at h
      rw [attempt, write, if_pos hwidth]
      exact r.bytes_setBytes_of_not_mem h
    · rw [attempt, write, if_neg hwidth]
  | word address value => exact r.bytes_setBytes_of_not_mem h

end Reference

theorem reference_attempt (m : Machine) (w : Write) :
    (attempt write m w).2.reference = (attempt Reference.write m.reference w).2 :=
  (attempt_simulates (m.write_reference w)).2

/-- **A register that no write changes** can be read as before. -/
theorem readRegister_stateAfter (m : Machine) {writes : List Write} {name : String}
    (h : ∀ w ∈ writes, name ∉ w.registers) :
    (stateAfter (attempt write) m writes).readRegister name = m.readRegister name := by
  have hword := stateAfter_eq_of_forall (f := fun m : Machine => m.reference.registers name)
    (fun m w hw => by rw [reference_attempt, Reference.registers_attempt _ (h w hw)]) m
  rw [readRegister_eq, readRegister_eq, hword]

/-- **A byte that no write changes** is there as before. -/
theorem byte_stateAfter (m : Machine) {writes : List Write} {a : UInt32}
    (h : ∀ w ∈ writes, a ∉ w.bytes) :
    (stateAfter (attempt write) m writes).memory.byte a = m.memory.byte a :=
  stateAfter_eq_of_forall (f := fun m : Machine => m.reference.bytes a)
    (fun m w hw => by rw [reference_attempt, Reference.bytes_attempt _ (h w hw)]) m

/-! ## Runs -/

/-- **The machine is its reference.** A write does the same in place. After every sequence of
writes to a new machine, some of which may have been refused, the writes were answered as the
reference answers them, and all that can be read is in the reference: a read of the memory is the
sum of its bytes, each with its weight, and a register has its word. The zero register is still
zero. -/
theorem attempt_writes_reference :
    (∀ (m : Machine) (w : Write), attemptInPlace put m w = attempt write m w) ∧
      ∀ writes : List Write,
        answers (attempt write) {} writes = answers (attempt Reference.write) {} writes ∧
        let m := stateAfter (attempt write) {} writes
        let r := stateAfter (attempt Reference.write) {} writes
        (∀ address width, (m.readMemory address width).toNat =
          ∑ i ∈ Finset.range (min width.toNat 4),
            (r.bytes (address + UInt32.ofNat i)).toNat * 256 ^ i) ∧
        (∀ name, m.readRegister name =
          if name ∈ Register.names.toList then .ok (r.registers name) else .error ⟨name⟩) ∧
        r.registers "$0" = 0 := by
  refine ⟨fun m w => attemptInPlace_eq (m.put_run w), fun writes => ?_⟩
  have hstep : ∀ (m : Machine) (r : Reference) (w : Write), m.reference = r →
      (attempt write m w).1 = (attempt Reference.write r w).1 ∧
        (attempt write m w).2.reference = (attempt Reference.write r w).2 := by
    rintro m - w rfl
    exact attempt_simulates (m.write_reference w)
  obtain ⟨hanswers, hreference⟩ := answers_eq_of_simulates hstep reference_default writes
  have hzero : (stateAfter (attempt Reference.write) {} writes).registers "$0" = 0 :=
    stateAfter_induction (P := fun r : Reference => r.registers "$0" = 0)
      (fun r w h => (r.registers_attempt w.zero_not_mem_registers).trans h) rfl writes
  refine ⟨hanswers, ?_⟩
  rw [← hreference] at hzero ⊢
  intro m
  exact ⟨m.toNat_readMemory, m.readRegister_eq, hzero⟩

/-- A word round the end of the address space, a byte over it, a width that is refused and a read of
more bytes than a word has. -/
example :
    let m := stateAfter (attempt write) {}
      [.word 0xFFFFFFFE 0x44332211, .memory 0 1 0xAA, .memory 0 3 0, .register "$0" 7]
    m.readMemory 0xFFFFFFFF 9 = 0x0044AA22 := by
  cbv

end Machine

end MachineMonitor
