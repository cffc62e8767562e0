import MachineMonitor.Expr.Evaluator
import MachineMonitor.Memory
import MachineMonitor.Register
import MachineMonitor.Watch.Pool

/-!
# The monitor

Model of `Monitor` (`evaluate`, `watch_create`, `watch_delete`, `watch_list`, `watch_sweep`,
`watch_clear`, `registers`, `scan_memory`) and of `MonitorError`: what a debugger front end asks
for. This is the value of an expression, watchpoints on expressions, a sweep of them after each step
of the target, its registers and its memory. A request that fails gives no new monitor, so the old
one stays as it was; `Proofs/Monitor/InPlace` has the operations that work in place.

* The capacity of the pool stands beside it, because the type of a pool depends on it.

Left out: what is traced, which `Monitor/Log` has. Idealised: memory and stack are unbounded.

Results:
* `length_scanMemory`: a scan has one entry per word asked for.
-/

namespace MachineMonitor

/-- Why the monitor refused a request. -/
inductive MonitorError where
  | eval (e : Expr.EvalError)
  | watch (e : WatchError)
  deriving DecidableEq, Repr

/-- The text shown for a refused request. -/
def MonitorError.message : MonitorError → String
  | eval e => e.message
  | watch e => e.message

/-- A target under inspection, the limits of its expressions and its watchpoints. -/
structure Monitor (τ : Type) where
  target : τ
  limits : Expr.Limits := {}
  capacity : Nat := Pool.defaultCapacity
  pool : Pool capacity := Pool.empty capacity
  deriving DecidableEq

namespace Monitor

variable {τ : Type} [Target τ]

/-- The value of an expression. -/
def evaluate (m : Monitor τ) (expr : String) : Except Expr.EvalError UInt32 :=
  Expr.evaluate m.limits m.target expr

/-! ### Watchpoints -/

/-- Watches an expression; answers the id and the value it has now. The expression is evaluated
before a slot is taken. -/
def watchCreate (m : Monitor τ) (expr : String) :
    Except MonitorError ((WatchpointId × UInt32) × Monitor τ) :=
  match m.evaluate expr with
  | .error e => .error (.eval e)
  | .ok value =>
    match m.pool.allocate with
    | .error e => .error (.watch e)
    | .ok (slot, pool) =>
      .ok (((pool.record slot).id, value), { m with pool := pool.fill slot expr value })

/-- Stops watching. -/
def watchDelete (m : Monitor τ) (id : WatchpointId) : Except WatchError (Monitor τ) :=
  match m.pool.release id with
  | .error e => .error e
  | .ok pool => .ok { m with pool }

/-- The watchpoints, newest first. -/
def watchList (m : Monitor τ) : List Watchpoint := m.pool.toList

/-- Evaluates all watched expressions, newest first, and reports what changed since they were last
looked at. -/
def watchSweep (m : Monitor τ) : Except Expr.EvalError (List WatchChange × Monitor τ) :=
  match m.pool.sweep m.evaluate with
  | .error e => .error e
  | .ok (changes, pool) => .ok (changes, { m with pool })

/-- Stops watching anything. -/
def watchClear (m : Monitor τ) : Monitor τ := { m with pool := m.pool.clear }

/-! ### Registers and memory -/

/-- The registers in the order x0 to x31; one that the target does not have counts as zero. -/
def registers (m : Monitor τ) : List RegisterValue :=
  Register.all.map fun r =>
    match Target.readRegister m.target r.name with
    | .ok value => ⟨r.name, value⟩
    | .error _ => ⟨r.name, 0⟩

/-- The address `i` words after a base address. -/
def wordAddress (base : UInt32) (i : Nat) : UInt32 := base + UInt32.ofNat i * wordBytes

/-- Consecutive words from the address that an expression has as value. -/
def scanMemory (m : Monitor τ) (count : UInt32) (expr : String) :
    Except Expr.EvalError (List MemoryWord) :=
  match m.evaluate expr with
  | .error e => .error e
  | .ok base => .ok <| (List.range count.toNat).map fun i =>
      ⟨wordAddress base i, Target.readWord m.target (wordAddress base i)⟩

theorem length_scanMemory {m : Monitor τ} {count : UInt32} {expr : String}
    {words : List MemoryWord} (h : m.scanMemory count expr = .ok words) :
    words.length = count.toNat := by
  unfold scanMemory at h
  split at h
  · cases h
  · cases h; simp

end Monitor

end MachineMonitor
