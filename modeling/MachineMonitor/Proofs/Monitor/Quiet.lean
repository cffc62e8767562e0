import MachineMonitor.Proofs.Expr.Footprint
import MachineMonitor.Proofs.Monitor.Run

/-!
# Sweeps that find nothing

After a sweep, the watched expressions have the values that were found. They keep them for as long
as nothing is written to the registers that they name and to the bytes that were read to evaluate
them. Where those bytes lie may depend on the contents of others; but the first of them lie where
they lay, so they still hold what they held, and so do all others in turn.

Results:
* `evaluate_writes`: a watched expression after writes that do not meet its footprint.
* `watchSweep_quiet`: a sweep after such writes finds nothing.
-/

namespace MachineMonitor.Monitor

open Machine (Write)

/-- The registers that the watched expressions name. -/
def watchedRegisters (m : Monitor Machine) : List String :=
  m.watchList.flatMap fun w => Expr.namedRegisters m.limits w.expression

/-- The addresses of the bytes that are read when the watched expressions are evaluated. -/
def watchedBytes (m : Monitor Machine) : List UInt32 :=
  m.watchList.flatMap fun w => Expr.bytesRead m.target m.limits w.expression

/-- A watched expression keeps its value, or its error, when other registers and other bytes are
written than those that it takes words from. -/
theorem evaluate_writes {m : Monitor Machine} {writes : List Write}
    (hregisters : ∀ write ∈ writes, ∀ name ∈ write.registers, name ∉ m.watchedRegisters)
    (hbytes : ∀ write ∈ writes, ∀ a ∈ write.bytes, a ∉ m.watchedBytes) {w : Watchpoint}
    (hw : w ∈ m.watchList) :
    Expr.evaluate m.limits (stateAfter (attempt Machine.write) m.target writes) w.expression =
      m.evaluate w.expression := by
  refine Expr.evaluate_eq_of_footprint (fun name hname => ?_) fun a ha => ?_
  · have hwatched : name ∈ m.watchedRegisters := List.mem_flatMap.mpr ⟨w, hw, hname⟩
    exact m.target.readRegister_stateAfter fun write hwrite hmem =>
      hregisters write hwrite name hmem hwatched
  · have hwatched : a ∈ m.watchedBytes := List.mem_flatMap.mpr ⟨w, hw, ha⟩
    exact m.target.byte_stateAfter fun write hwrite hmem => hbytes write hwrite a hmem hwatched

/-- **A sweep finds nothing** after a sweep that succeeded and any writes, some of which may be
refused, to registers that no watched expression names and to bytes that were not read to evaluate
them. It succeeds, and leaves the monitor as it is. -/
theorem watchSweep_quiet {m m' : Monitor Machine} {changes : List WatchChange}
    (h : m.watchSweep = .ok (changes, m')) {writes : List Write}
    (hregisters : ∀ write ∈ writes, ∀ name ∈ write.registers, name ∉ m.watchedRegisters)
    (hbytes : ∀ write ∈ writes, ∀ a ∈ write.bytes, a ∉ m.watchedBytes) :
    let written : Monitor Machine :=
      { m' with target := stateAfter (attempt Machine.write) m'.target writes }
    written.watchSweep = .ok ([], written) := by
  obtain ⟨p, hsweep, rfl⟩ := watchSweep_eq_ok h
  intro written
  have hagain : p.sweep written.evaluate = .ok ([], p) :=
    Pool.sweep_again hsweep fun w hw => evaluate_writes hregisters hbytes hw
  rw [watchSweep, hagain]

/-- The word at `0x100` is the address `0xFFFFFFFE`, so the word there goes round the end of the
address space. The bytes next to these two words are written, and a register that is not named. -/
theorem watchSweep_quiet_around :
    let m : Monitor Machine :=
      { target := { memory := Memory.store {} 0x100 4 0xFFFFFFFE }, capacity := 1
        pool := { slots := #v[⟨0, "**0x100 + $a0", 9⟩], free := [], active := [0] } }
    let writes : List Write :=
      [.memory 2 4 7, .memory 0x104 1 1, .memory 0x100 3 1, .word 0xFFFFFFFA 8, .register "a1" 5]
    ∃ m', m.watchSweep = .ok ([⟨0, "**0x100 + $a0", 9, 0⟩], m') ∧
      (watchSweep { m' with target := stateAfter (attempt Machine.write) m'.target writes }).map
        (·.1) = .ok [] := by
  intro m writes
  have hsweep : m.watchSweep.map (·.1) = .ok [⟨0, "**0x100 + $a0", 9, 0⟩] := by decide +kernel
  cases h : m.watchSweep with
  | error e =>
    rw [h] at hsweep
    exact absurd hsweep (by simp [Except.map])
  | ok answer =>
    obtain ⟨changes, m'⟩ := answer
    rw [h] at hsweep
    obtain rfl : changes = _ := Except.ok.inj hsweep
    have hregisters : ∀ write ∈ writes, ∀ name ∈ write.registers, name ∉ m.watchedRegisters := by
      have hnamed : m.watchedRegisters = ["a0"] := by decide +kernel
      rw [hnamed]
      decide
    have hbytes : ∀ write ∈ writes, ∀ a ∈ write.bytes, a ∉ m.watchedBytes := by
      have hread : m.watchedBytes =
          [0x100, 0x101, 0x102, 0x103, 0xFFFFFFFE, 0xFFFFFFFF, 0, 1] := by decide +kernel
      have hwritten : writes.flatMap Write.bytes =
          [2, 3, 4, 5, 0x104, 0xFFFFFFFA, 0xFFFFFFFB, 0xFFFFFFFC, 0xFFFFFFFD] := by decide +kernel
      have hapart : ∀ a ∈ writes.flatMap Write.bytes, a ∉ m.watchedBytes := by
        rw [hread, hwritten]
        simp
      exact fun write hwrite a ha => hapart a (List.mem_flatMap.mpr ⟨write, hwrite, ha⟩)
    refine ⟨m', rfl, ?_⟩
    rw [watchSweep_quiet h hregisters hbytes]
    rfl

end MachineMonitor.Monitor
