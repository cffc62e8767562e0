import MachineMonitor.Monitor
import MachineMonitor.Proofs.Watch.Sweep

/-!
# Runs of a monitor

A run is any sequence of requests about watchpoints, with the target changing in any way between
them. A request that fails leaves the monitor as it was.

Results:
* `moves_step`: all that an action can do.
* `wellFormed_run`, `capacity_run`: what every run preserves.
-/

namespace MachineMonitor.Monitor

/-- What may happen to a monitor: a request about watchpoints, or a change of its target. -/
inductive Action (τ : Type) where
  | create (expr : String)
  | delete (id : WatchpointId)
  | clear
  | sweep
  | mutate (f : τ → τ)

variable {τ : Type} [Target τ]

/-- The monitor after an action. -/
def step (m : Monitor τ) : Action τ → Monitor τ
  | .create expr =>
    match m.watchCreate expr with
    | .ok (_, m') => m'
    | .error _ => m
  | .delete id =>
    match m.watchDelete id with
    | .ok m' => m'
    | .error _ => m
  | .clear => m.watchClear
  | .sweep =>
    match m.watchSweep with
    | .ok (_, m') => m'
    | .error _ => m
  | .mutate f => { m with target := f m.target }

/-- The changes that an action reports: those of a sweep that succeeds, and otherwise none. -/
def report (m : Monitor τ) : Action τ → List WatchChange
  | .sweep =>
    match m.watchSweep with
    | .ok (changes, _) => changes
    | .error _ => []
  | _ => []

/-- The monitor after a sequence of actions. -/
def run (m : Monitor τ) (actions : List (Action τ)) : Monitor τ := actions.foldl step m

/-- The changes that a sequence of actions reports, action by action. -/
def reports (m : Monitor τ) : List (Action τ) → List (List WatchChange)
  | [] => []
  | a :: actions => m.report a :: reports (m.step a) actions

theorem run_cons (m : Monitor τ) (a : Action τ) (actions : List (Action τ)) :
    m.run (a :: actions) = (m.step a).run actions := rfl

theorem run_concat (m : Monitor τ) (actions : List (Action τ)) (a : Action τ) :
    m.run (actions ++ [a]) = (m.run actions).step a := List.foldl_append

/-! ## What an action can do -/

/-- All that an action can do: what it reports and the monitor after it. -/
inductive Moves (m : Monitor τ) : Action τ → List WatchChange → Monitor τ → Prop
  | create {expr : String} {value : UInt32} {s : Fin m.capacity} {p : Pool m.capacity}
      (hvalue : m.evaluate expr = .ok value) (halloc : m.pool.allocate = .ok (s, p)) :
      Moves m (.create expr) [] { m with pool := p.fill s expr value }
  | createRefused {expr : String} {e : MonitorError} (h : m.watchCreate expr = .error e) :
      Moves m (.create expr) [] m
  | delete {id : WatchpointId} {p : Pool m.capacity} (h : m.pool.release id = .ok p) :
      Moves m (.delete id) [] { m with pool := p }
  | deleteRefused {id : WatchpointId} {e : WatchError} (h : m.watchDelete id = .error e) :
      Moves m (.delete id) [] m
  | clear : Moves m .clear [] { m with pool := m.pool.clear }
  | sweep {changes : List WatchChange} {p : Pool m.capacity}
      (h : m.pool.sweep m.evaluate = .ok (changes, p)) : Moves m .sweep changes { m with pool := p }
  | sweepRefused {e : Expr.EvalError} (h : m.watchSweep = .error e) : Moves m .sweep [] m
  | mutate (f : τ → τ) : Moves m (.mutate f) [] { m with target := f m.target }

theorem watchCreate_eq_ok {m m' : Monitor τ} {expr : String} {id : WatchpointId} {value : UInt32}
    (h : m.watchCreate expr = .ok ((id, value), m')) :
    ∃ s p, m.evaluate expr = .ok value ∧ m.pool.allocate = .ok (s, p) ∧ id = (p.record s).id ∧
      m' = { m with pool := p.fill s expr value } := by
  unfold watchCreate at h
  split at h
  · exact absurd h (by simp)
  · rename_i v hv
    split at h
    · exact absurd h (by simp)
    · rename_i s p halloc
      obtain ⟨hanswer, hm⟩ := Prod.mk.inj (Except.ok.inj h)
      obtain ⟨hid, rfl⟩ := Prod.mk.inj hanswer
      exact ⟨s, p, hv, halloc, hid.symm, hm.symm⟩

theorem watchCreate_of_allocate {m : Monitor τ} {expr : String} {value : UInt32}
    {s : Fin m.capacity} {p : Pool m.capacity} (hvalue : m.evaluate expr = .ok value)
    (halloc : m.pool.allocate = .ok (s, p)) :
    m.watchCreate expr =
      .ok (((p.record s).id, value), { m with pool := p.fill s expr value }) := by
  rw [watchCreate, hvalue, halloc]

omit [Target τ] in
theorem watchDelete_eq_ok {m m' : Monitor τ} {id : WatchpointId} (h : m.watchDelete id = .ok m') :
    ∃ p, m.pool.release id = .ok p ∧ m' = { m with pool := p } := by
  unfold watchDelete at h
  split at h
  · exact absurd h (by simp)
  · rename_i p hp
    exact ⟨p, hp, (Except.ok.inj h).symm⟩

omit [Target τ] in
theorem watchDelete_of_release {m : Monitor τ} {id : WatchpointId} {p : Pool m.capacity}
    (h : m.pool.release id = .ok p) : m.watchDelete id = .ok { m with pool := p } := by
  rw [watchDelete, h]

theorem watchSweep_eq_ok {m m' : Monitor τ} {changes : List WatchChange}
    (h : m.watchSweep = .ok (changes, m')) :
    ∃ p, m.pool.sweep m.evaluate = .ok (changes, p) ∧ m' = { m with pool := p } := by
  unfold watchSweep at h
  split at h
  · exact absurd h (by simp)
  · rename_i cs p hp
    obtain ⟨rfl, hm⟩ := Prod.mk.inj (Except.ok.inj h)
    exact ⟨p, hp, hm.symm⟩

theorem watchSweep_eq_error {m : Monitor τ} {e : Expr.EvalError} (h : m.watchSweep = .error e) :
    m.pool.sweep m.evaluate = .error e := by
  unfold watchSweep at h
  split at h
  · rename_i e' he
    rw [he, Except.error.inj h]
  · exact absurd h (by simp)

theorem moves_create {m m' : Monitor τ} {expr : String} {answer : WatchpointId × UInt32}
    (h : m.watchCreate expr = .ok (answer, m')) : Moves m (.create expr) [] m' := by
  obtain ⟨s, p, hvalue, halloc, -, rfl⟩ := watchCreate_eq_ok h
  exact .create hvalue halloc

/-- **All that an action can do.** -/
theorem moves_step (m : Monitor τ) (a : Action τ) : Moves m a (m.report a) (m.step a) := by
  cases a with
  | create expr =>
    show Moves m (.create expr) [] _
    rw [step]
    split
    · rename_i answer m' h
      exact moves_create h
    · rename_i e h
      exact .createRefused h
  | delete id =>
    show Moves m (.delete id) [] _
    rw [step]
    split
    · rename_i m' h
      obtain ⟨p, hp, rfl⟩ := watchDelete_eq_ok h
      exact .delete hp
    · rename_i e h
      exact .deleteRefused h
  | clear => exact .clear
  | sweep =>
    rw [report, step]
    cases h : m.watchSweep with
    | error e => exact .sweepRefused h
    | ok answer =>
      obtain ⟨p, hp, hm⟩ := watchSweep_eq_ok h
      simp only [hm]
      exact .sweep hp
  | mutate f => exact .mutate f

/-! ## What every run preserves -/

theorem Moves.wellFormed {m m' : Monitor τ} {a : Action τ} {changes : List WatchChange}
    (h : Moves m a changes m') (hm : m.pool.WellFormed) : m'.pool.WellFormed := by
  cases h with
  | create _ halloc => exact (hm.allocate halloc).fill _ _ _
  | createRefused | deleteRefused | sweepRefused | mutate => exact hm
  | delete h => exact hm.release h
  | clear => exact hm.clear
  | sweep h =>
    obtain ⟨rs, -, -, rfl⟩ := Pool.sweep_eq_ok h
    exact hm.storeAll rs

theorem Moves.capacity_eq {m m' : Monitor τ} {a : Action τ} {changes : List WatchChange}
    (h : Moves m a changes m') : m'.capacity = m.capacity := by
  cases h <;> rfl

theorem Moves.limits_eq {m m' : Monitor τ} {a : Action τ} {changes : List WatchChange}
    (h : Moves m a changes m') : m'.limits = m.limits := by
  cases h <;> rfl

theorem wellFormed_run {m : Monitor τ} (h : m.pool.WellFormed) (actions : List (Action τ)) :
    (m.run actions).pool.WellFormed := by
  induction actions generalizing m with
  | nil => exact h
  | cons a actions ih => exact ih ((moves_step m a).wellFormed h)

theorem capacity_run (m : Monitor τ) (actions : List (Action τ)) :
    (m.run actions).capacity = m.capacity := by
  induction actions generalizing m with
  | nil => rfl
  | cons a actions ih => rw [run_cons, ih, (moves_step m a).capacity_eq]

end MachineMonitor.Monitor
