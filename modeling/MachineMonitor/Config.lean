import MachineMonitor.Machine
import MachineMonitor.Monitor

/-!
# Configuration

Model of `MonitorConfig` (`validate`, `build_machine`), of its sections and of `ConfigError`: the
limits of expressions, the number of watchpoints and what the machine holds at the start. A
configuration is valid when every bound is positive and expressions cannot get too deep.

Left out: what the file system and the TOML library say about a file that cannot be read. Idealised:
a count is a number without a bound; what is read from a text fits 64 bits.

Results:
* `validate_eq_ok_iff`: a configuration passes exactly when it has no fault.
-/

namespace MachineMonitor

/-- Why a configuration is not valid. -/
inductive ConfigFault where
  | noTokens
  | tooManyTokens
  | noTokenLen
  | noCapacity
  deriving DecidableEq, Repr

/-- Why a configuration cannot be used. -/
inductive ConfigError where
  | unreadable
  | malformed
  | invalid (fault : ConfigFault)
  | machine (e : MachineError)
  deriving DecidableEq, Repr

/-- What a server is told at its start. -/
structure Config where
  limits : Expr.Limits := {}
  capacity : Nat := Pool.defaultCapacity
  /-- The registers to set, by name, in the order of their names. -/
  registers : Std.ExtTreeMap String UInt32 := ∅
  memory : List MemoryWord := []
  deriving DecidableEq

namespace Config

/-- An expression may not have more tokens than this, whatever the configuration says: its nesting
is bounded by its length. -/
def maxTokensLimit : Nat := 1024

end Config

/-- The text shown for a fault. -/
def ConfigFault.message : ConfigFault → String
  | noTokens => "limits.max_tokens must be positive"
  | tooManyTokens => s!"limits.max_tokens must be at most {Config.maxTokensLimit}"
  | noTokenLen => "limits.max_token_len must be positive"
  | noCapacity => "watch.capacity must be positive"

/-- The text shown for a configuration that cannot be used. -/
def ConfigError.message : ConfigError → String
  | unreadable => "Failed to read config"
  | malformed => "Failed to parse config"
  | invalid fault => s!"Invalid config: {fault.message}"
  | machine e => e.message

namespace Config

/-- The first fault of a configuration. -/
def fault? (c : Config) : Option ConfigFault :=
  if c.limits.maxTokens = 0 then some .noTokens
  else if maxTokensLimit < c.limits.maxTokens then some .tooManyTokens
  else if c.limits.maxTokenLen = 0 then some .noTokenLen
  else if c.capacity = 0 then some .noCapacity
  else none

/-- Passes a configuration that has no fault. -/
def validate (c : Config) : Except ConfigError Config :=
  match c.fault? with
  | some fault => .error (.invalid fault)
  | none => .ok c

theorem validate_eq_ok_iff {c d : Config} : c.validate = .ok d ↔ c.fault? = none ∧ d = c := by
  unfold validate
  cases c.fault? <;> simp [eq_comm]

/-- The register that a key of the configuration names: a register of just this name before one of
the name less a leading dollar sign. -/
def registerName (key : String) : String :=
  match Register.ofName? key, key.toList with
  | none, '$' :: cs => String.ofList cs
  | _, _ => key

/-- The machine at the start: first the registers are set in the order of their keys, then the
memory words in the order in which they are listed. -/
def buildMachine (c : Config) : Except MachineError Machine := do
  let m ← c.registers.toList.foldlM (fun m (key, value) => m.setRegister (registerName key) value)
    ({} : Machine)
  return c.memory.foldl (fun m w => m.writeWord w.address w.value) m

end Config

/-- A monitor with the limits and the number of watchpoints of a configuration. -/
def Monitor.ofConfig {τ : Type} (target : τ) (c : Config) : Monitor τ where
  target := target
  limits := c.limits
  capacity := c.capacity

end MachineMonitor
