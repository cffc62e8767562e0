/-!
# General-purpose registers

Model of `REGISTER_NAMES` and `register_index`: the 32 integer registers of a RISC-V hart and their
ABI names, in the order x0 to x31.

Results:
* `Register.ofName?_name`: every register is found under its own name.
* `Register.name_of_ofName?`: a name finds only the register that carries it.
-/

namespace MachineMonitor

/-- A register's name and its value. -/
structure RegisterValue where
  name : String
  value : UInt32
  deriving DecidableEq, Repr

/-- A general-purpose register, numbered from x0 to x31. -/
abbrev Register := Fin 32

namespace Register

/-- The register that is wired to zero. -/
def zero : Register := 0

/-- The ABI names in the order x0 to x31; x0 is called `$0`. -/
def names : Vector String 32 :=
  #v["$0", "ra", "sp", "gp", "tp", "t0", "t1", "t2", "s0", "s1", "a0", "a1", "a2", "a3", "a4", "a5",
    "a6", "a7", "s2", "s3", "s4", "s5", "s6", "s7", "s8", "s9", "s10", "s11", "t3", "t4", "t5",
    "t6"]

/-- The ABI name of a register, without a leading `$` (x0 apart). -/
def name (r : Register) : String := names[r]

/-- All registers, x0 first. -/
def all : List Register := List.finRange 32

/-- The register with this ABI name. -/
def ofName? (name : String) : Option Register := all.find? (·.name == name)

theorem ofName?_name (r : Register) : ofName? r.name = some r := by decide +revert

theorem name_of_ofName? {s : String} {r : Register} (h : ofName? s = some r) : r.name = s := by
  simpa using List.find?_some h

end Register

end MachineMonitor
