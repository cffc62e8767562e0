/-!
# Taking computations apart

What the outcome of two computations in sequence says about each of them, and the outcomes of
programs that work in place. Such a program writes to its state step by step, and what it has
written by the time it fails stays written.
-/

namespace MachineMonitor

section Sequences

variable {ε α β : Type} {x : Except ε α} {f : α → Except ε β}

theorem ok_of_bind {b : β} (h : (x >>= f) = .ok b) : ∃ a, x = .ok a ∧ f a = .ok b := by
  cases x with
  | error e => exact absurd h (by simp [bind, Except.bind])
  | ok a => exact ⟨a, rfl, h⟩

theorem error_of_bind {e : ε} (h : (x >>= f) = .error e) :
    x = .error e ∨ ∃ a, x = .ok a ∧ f a = .error e := by
  cases x with
  | error e' => exact Or.inl (congrArg Except.error (Except.error.inj h))
  | ok a => exact Or.inr ⟨a, rfl, h⟩

/-- What goes on under a condition. -/
theorem guard_bind (b : Bool) (f : Unit → Option α) :
    (guard (b = true) >>= f) = if b then f () else none := by
  cases b <;> rfl

end Sequences

/-! ## Programs that work in place -/

section Programs

variable {ε σ ρ α : Type}

/-- The outcome of an operation that fails without a new state: the old one is kept. -/
def orKeep (s : σ) : Except ε (α × σ) → EStateM.Result ε σ α
  | .ok (a, s') => .ok a s'
  | .error e => .error e s

/-- An outcome for a part of a state as an outcome for the whole. -/
def within (whole : σ → ρ) : EStateM.Result ε σ α → EStateM.Result ε ρ α
  | .ok a s => .ok a (whole s)
  | .error e s => .error e (whole s)

theorem within_orKeep (whole : σ → ρ) (s : σ) (x : Except ε (α × σ)) :
    within whole (orKeep s x) = orKeep (whole s) (x.map (Prod.map id whole)) := by
  cases x <;> rfl

theorem adaptExcept_run {ε' : Type} (f : ε → ε') (program : EStateM ε σ α) (s : σ) :
    (program.adaptExcept f).run s =
      match program.run s with
      | .ok a s' => .ok a s'
      | .error e s' => .error (f e) s' := by
  show EStateM.adaptExcept f program s = _
  unfold EStateM.adaptExcept EStateM.run
  cases program s <;> rfl

end Programs

end MachineMonitor
