import Mathlib.Data.List.Basic
import MachineMonitor.Monitor
import MachineMonitor.Proofs.Watch.Sweep

/-!
# Watchpoints in place

The operations on watchpoints as programs, with their checks and their writes in the order in which
they are made, one slot after the other.

Results:
* `Pool.takeRecord_run`, `Pool.giveBack_run`, `Pool.giveAllBack_run`, `Pool.updateAll_run`: the
  programs of the pool. Updating one slot after the other finds the changes that are there at the
  beginning, because no slot is active twice.
* `Monitor.putWatch_run`, `Monitor.giveBack_run`, `Monitor.giveAllBack_run`,
  `Monitor.updateAll_run`: the programs of the monitor.
-/

namespace MachineMonitor

/-! ## The pool -/

namespace Pool

variable {n : Nat}

/-- Pops a free slot and makes it the newest active one. -/
def takeSlot : EStateM WatchError (Pool n) (Fin n) := do
  match (← get).free with
  | [] => throw (.poolExhausted n)
  | slot :: free =>
    modify fun p => { p with free }
    modify fun p => { p with active := slot :: p.active }
    return slot

theorem takeSlot_run (p : Pool n) : takeSlot.run p = orKeep p p.allocate := by
  obtain ⟨slots, free, active⟩ := p
  cases free <;> rfl

/-- Takes a slot and writes an expression and its value to it. -/
def takeRecord (expression : String) (value : UInt32) :
    EStateM WatchError (Pool n) WatchpointId := do
  let slot ← takeSlot
  modify fun p => p.fill slot expression value
  return ((← get).record slot).id

theorem takeRecord_run (p : Pool n) (expression : String) (value : UInt32) :
    (takeRecord expression value).run p = orKeep p (p.allocate.map fun (slot, p') =>
      ((p'.record slot).id, p'.fill slot expression value)) := by
  unfold takeRecord
  rw [EStateM.run_bind, takeSlot_run]
  cases p.allocate with
  | error e => rfl
  | ok taken => exact congrArg (EStateM.Result.ok · _) (id_fill taken.2 taken.1 expression value _)

/-- Takes the active slot with an id from the active ones and pushes it on the free ones. -/
def giveBack (id : WatchpointId) : EStateM WatchError (Pool n) Unit := do
  match (← get).slotOf? id with
  | none => throw (.notFound id)
  | some slot =>
    modify fun p => { p with active := p.active.erase slot }
    modify fun p => { p with free := slot :: p.free }

theorem giveBack_run (p : Pool n) (id : WatchpointId) :
    (giveBack id).run p = orKeep p ((p.release id).map fun p' => ((), p')) := by
  unfold giveBack release
  rw [EStateM.run_bind, EStateM.run_get]
  dsimp only
  cases p.slotOf? id <;> rfl

/-- Pops active slots, the newest first, and pushes them on the free ones. -/
def moveAll {ε : Type} : List (Fin n) → EStateM ε (Pool n) Unit
  | [] => return
  | slot :: slots => do
    modify fun p => { p with active := slots }
    modify fun p => { p with free := slot :: p.free }
    moveAll slots

/-- Gives back all active slots. -/
def giveAllBack {ε : Type} : EStateM ε (Pool n) Unit := do moveAll (← get).active

theorem giveAllBack_run {ε : Type} (p : Pool n) :
    (giveAllBack : EStateM ε (Pool n) Unit).run p = .ok () p.clear := by
  show (moveAll p.active : EStateM ε (Pool n) Unit).run p = _
  obtain ⟨records, free, active⟩ := p
  unfold clear
  induction active generalizing free with
  | nil => rfl
  | cons slot active ih =>
    rw [List.reverse_cons, List.append_assoc]
    exact ih (slot :: free)

/-- Stores the values that are not the ones on record, and reports these changes. -/
def update {ε : Type} : Readings n → EStateM ε (Pool n) (List WatchChange)
  | [] => return []
  | (slot, value) :: readings => do
    match change? ((← get).record slot) value with
    | none => update readings
    | some change =>
      modify fun p => p.store slot value
      return change :: (← update readings)

/-- What is stored in one slot does not change what is found in the others. -/
theorem changes_store {p : Pool n} {slot : Fin n} {value : UInt32} {readings : Readings n}
    (h : slot ∉ readings.map (·.1)) :
    (p.store slot value).changes readings = p.changes readings := by
  refine List.filterMap_congr fun r hr => ?_
  have hne : slot ≠ r.1 := by
    rintro rfl
    exact h (List.mem_map_of_mem hr)
  show change? ((p.store slot value).record r.1) r.2 = change? (p.record r.1) r.2
  rw [record_store, if_neg hne]

/-- Updating one slot after the other is updating them all, if none stands there twice. -/
theorem update_run {ε : Type} (p : Pool n) {readings : Readings n}
    (h : (readings.map (·.1)).Nodup) :
    (update readings : EStateM ε _ _).run p = .ok (p.changes readings) (p.storeAll readings) := by
  induction readings generalizing p with
  | nil => rfl
  | cons r readings ih =>
    obtain ⟨slot, value⟩ := r
    rw [List.map_cons, List.nodup_cons] at h
    -- the others are looked at after this slot is written, and it is none of them
    have hrest := ih (p.store slot value) h.2
    rw [changes_store h.1] at hrest
    rw [storeAll_cons, changes, List.filterMap_cons, update, EStateM.run_bind, EStateM.run_get]
    dsimp only
    cases hchange : change? (p.record slot) value with
    | none =>
      obtain rfl := change?_eq_none_iff.mp hchange
      rw [store_lastValue] at hrest ⊢
      exact hrest
    | some change =>
      have hstored : (modify fun p => p.store slot value : EStateM ε (Pool n) Unit).run p =
        .ok () (p.store slot value) := rfl
      dsimp only
      rw [EStateM.run_bind, hstored]
      dsimp only
      rw [EStateM.run_bind, hrest]
      rfl

/-- Evaluates the active expressions, and then stores the values that are new. -/
def updateAll {ε : Type} (eval : String → Except ε UInt32) :
    EStateM ε (Pool n) (List WatchChange) := do
  match (← get).read eval with
  | .error e => throw e
  | .ok readings => update readings

theorem updateAll_run {ε : Type} {p : Pool n} (h : p.WellFormed)
    (eval : String → Except ε UInt32) : (updateAll eval).run p = orKeep p (p.sweep eval) := by
  unfold updateAll sweep
  rw [EStateM.run_bind, EStateM.run_get]
  dsimp only
  cases hread : p.read eval with
  | error e => rfl
  | ok readings =>
    obtain ⟨hslots, -⟩ := reads_of_mapM hread
    exact p.update_run (hslots ▸ h.active_nodup)

end Pool

/-! ## The monitor -/

namespace Monitor

variable {τ ε α : Type}

/-- Works on the pool of a monitor. -/
def onPool (program : {n : Nat} → EStateM ε (Pool n) α) : EStateM ε (Monitor τ) α :=
  fun m => within (fun pool => { m with pool }) (program.run m.pool)

/-- Works on the target of a monitor. -/
def onTarget (program : EStateM ε τ α) : EStateM ε (Monitor τ) α :=
  fun m => within (fun target => { m with target }) (program.run m.target)

/-- Looks at a monitor. -/
def look (f : Monitor τ → Except ε α) : EStateM ε (Monitor τ) α := do
  match f (← get) with
  | .error e => throw e
  | .ok a => return a

theorem look_run (m : Monitor τ) (f : Monitor τ → Except ε α) :
    (look f).run m = orKeep m ((f m).map fun a => (a, m)) := by
  unfold look
  rw [EStateM.run_bind, EStateM.run_get]
  dsimp only
  cases f m <;> rfl

theorem onPool_run (m : Monitor τ) (program : {n : Nat} → EStateM ε (Pool n) α) :
    (onPool program).run m = within (fun pool => { m with pool }) (program.run m.pool) := rfl

theorem onTarget_run (m : Monitor τ) (program : EStateM ε τ α) :
    (onTarget program).run m = within (fun target => { m with target }) (program.run m.target) :=
  rfl

theorem giveBack_run (m : Monitor τ) (id : WatchpointId) :
    (onPool (Pool.giveBack id)).run m =
      orKeep m ((m.watchDelete id).map fun m' => ((), m')) := by
  rw [onPool_run, Pool.giveBack_run, within_orKeep, watchDelete]
  cases m.pool.release id <;> rfl

theorem giveAllBack_run (m : Monitor τ) :
    (onPool Pool.giveAllBack : EStateM ε (Monitor τ) Unit).run m = .ok () m.watchClear := by
  rw [onPool_run, Pool.giveAllBack_run]
  rfl

variable [Target τ]

/-- Evaluates an expression, and then takes a slot for it. -/
def putWatch (expr : String) : EStateM MonitorError (Monitor τ) (WatchpointId × UInt32) := do
  match (← get).evaluate expr with
  | .error e => throw (.eval e)
  | .ok value =>
    let id ← (onPool (Pool.takeRecord expr value)).adaptExcept .watch
    return (id, value)

theorem putWatch_run (m : Monitor τ) (expr : String) :
    (putWatch expr).run m = orKeep m (m.watchCreate expr) := by
  unfold putWatch watchCreate
  rw [EStateM.run_bind, EStateM.run_get]
  dsimp only
  cases m.evaluate expr with
  | error e => rfl
  | ok value =>
    have htake := m.onPool_run (Pool.takeRecord expr value)
    rw [Pool.takeRecord_run, within_orKeep] at htake
    dsimp only
    rw [EStateM.run_bind, adaptExcept_run, htake]
    cases m.pool.allocate <;> rfl

theorem updateAll_run {m : Monitor τ} (h : m.pool.WellFormed) :
    (onPool (Pool.updateAll m.evaluate)).run m = orKeep m m.watchSweep := by
  rw [onPool_run, Pool.updateAll_run h, within_orKeep, watchSweep]
  cases m.pool.sweep m.evaluate <;> rfl

end Monitor

end MachineMonitor
