import MachineMonitor.Proofs.Expr.Rejection
import MachineMonitor.Proofs.Monitor.Run

/-!
# Sweeping accepted expressions

A watched expression had a value when it was accepted. Whatever happens to the machine afterwards,
all that can go wrong with it is a division by zero, and so with a sweep.

Results:
* `accepted_run`: in every run, every watched expression had a value on some machine.
* `watchSweep_run`: in every run, a sweep succeeds or divides by zero.
-/

namespace MachineMonitor.Monitor

/-- Every watched expression has a value on some machine, under the limits of the monitor. -/
def Accepted (m : Monitor Machine) : Prop :=
  ∀ w ∈ m.watchList, ∃ (t : Machine) (value : UInt32),
    Expr.evaluate m.limits t w.expression = .ok value

theorem Moves.accepted {m m' : Monitor Machine} {a : Action Machine} {changes : List WatchChange}
    (h : Moves m a changes m') (hm : m.pool.WellFormed) (hacc : m.Accepted) : m'.Accepted := by
  intro w hw
  cases h with
  | create hvalue halloc =>
    change w ∈ Pool.toList _ at hw
    rw [hm.toList_fill halloc] at hw
    rcases List.mem_cons.mp hw with rfl | hw
    · exact ⟨m.target, _, hvalue⟩
    · exact hacc w hw
  | createRefused | deleteRefused | sweepRefused | mutate => exact hacc w hw
  | delete h => exact hacc w (Pool.mem_toList_of_release h hw)
  | clear => exact absurd hw (by simp [watchList, Pool.toList, Pool.clear])
  | sweep h =>
    obtain ⟨rs, ⟨hslots, -⟩, -, rfl⟩ := Pool.sweep_eq_ok h
    obtain ⟨w', hw', hexpr⟩ := hm.exists_of_mem_storeAll hslots hw
    rw [← hexpr]
    exact hacc w' hw'

theorem accepted_run {m : Monitor Machine} (hm : m.pool.WellFormed) (hacc : m.Accepted)
    (actions : List (Action Machine)) : (m.run actions).Accepted := by
  induction actions generalizing m with
  | nil => exact hacc
  | cons a actions ih =>
    have hmoves := moves_step m a
    exact ih (hmoves.wellFormed hm) (hmoves.accepted hm hacc)

/-- A sweep of expressions that were accepted succeeds or divides by zero. -/
theorem Accepted.watchSweep {m : Monitor Machine} (hacc : m.Accepted) :
    (∃ changes m', m.watchSweep = .ok (changes, m')) ∨ m.watchSweep = .error .divideByZero := by
  cases h : m.watchSweep with
  | ok answer => exact Or.inl ⟨answer.1, answer.2, rfl⟩
  | error e =>
    obtain ⟨w, hw, he⟩ := Pool.sweep_eq_error (watchSweep_eq_error h)
    obtain ⟨t, value, hvalue⟩ := hacc w hw
    rcases Expr.evaluate_ok_or_divideByZero m.target hvalue with ⟨b, hb⟩ | hdiv
    · exact absurd (he.symm.trans hb) (by simp)
    · exact Or.inr (congrArg Except.error (Except.error.inj (he.symm.trans hdiv)))

/-- **A sweep only fails by a division by zero**, in every state that a new monitor reaches. -/
theorem watchSweep_run (target : Machine) (limits : Expr.Limits) (capacity : Nat)
    (actions : List (Action Machine)) :
    (∃ changes m, (run { target, limits, capacity } actions).watchSweep = .ok (changes, m)) ∨
      (run { target, limits, capacity } actions).watchSweep = .error .divideByZero := by
  have hacc : Accepted { target, limits, capacity } := fun w hw => absurd hw List.not_mem_nil
  exact (accepted_run (Pool.wellFormed_empty capacity) hacc actions).watchSweep

end MachineMonitor.Monitor
