import MachineMonitor.Proofs.Transcript
import MachineMonitor.Proofs.Watch.Slots

/-!
# Operations on a pool

What may be done to a pool, in any order: take a slot and overwrite its record or not, give one
back, sweep with any evaluator, give all back. An evaluator may keep a state of its own from one
expression to the next, and may fail.

Results:
* `step_cases`: all that an operation can do.
* `wellFormed_step`, `wellFormed_stateAfter`: every operation keeps a pool well-formed.
* `WellFormed.allocate_eq_error_iff`: a slot is refused just when all are active.
-/

namespace MachineMonitor.Pool

variable {n : Nat} {ε σ : Type}

/-- An operation on a pool. Whoever takes a slot overwrites the expression and the value of its
record, or leaves what was there. -/
inductive Op (ε σ : Type) where
  | allocate (expression : Option String) (value : Option UInt32)
  | release (id : WatchpointId)
  | sweep (eval : String → EStateM ε σ UInt32) (start : σ)
  | clear

/-- What an operation answers: the record of a slot as it was when it was taken, the changes that a
sweep found, or nothing. -/
inductive Answer where
  | taken (w : Watchpoint)
  | swept (changes : List WatchChange)
  | done
  deriving DecidableEq, Repr

/-- Why an operation is refused. -/
inductive Refusal (ε : Type) where
  | watch (e : WatchError)
  | eval (e : ε)
  deriving DecidableEq, Repr

/-- Overwrites what is given of a record. -/
def overwrite (expression : Option String) (value : Option UInt32) (w : Watchpoint) : Watchpoint :=
  { w with expression := expression.getD w.expression, lastValue := value.getD w.lastValue }

/-- Does an operation. -/
def apply (p : Pool n) : Op ε σ → Except (Refusal ε) (Answer × Pool n)
  | .allocate expression value =>
    match p.allocate with
    | .ok (s, p') =>
      let w := overwrite expression value (p'.record s)
      .ok (.taken (p'.record s), p'.fill s w.expression w.lastValue)
    | .error e => .error (.watch e)
  | .release id =>
    match p.release id with
    | .ok p' => .ok (.done, p')
    | .error e => .error (.watch e)
  | .sweep eval start =>
    match (p.sweep eval).run start with
    | .ok (changes, p') _ => .ok (.swept changes, p')
    | .error e _ => .error (.eval e)
  | .clear => .ok (.done, p.clear)

/-- Tries an operation; one that is refused leaves the pool as it was. -/
def step (p : Pool n) (op : Op ε σ) : Except (Refusal ε) Answer × Pool n :=
  match p.apply op with
  | .ok (answer, p') => (.ok answer, p')
  | .error e => (.error e, p)

/-! ## What an operation can do -/

/-- All that a slot being taken can do. -/
theorem allocate_cases (p : Pool n) :
    (p.free = [] ∧ p.allocate = .error (.poolExhausted n)) ∨
      ∃ s free, p.free = s :: free ∧
        p.allocate = .ok (s, { p with free, active := s :: p.active }) := by
  cases hfree : p.free with
  | nil => exact Or.inl ⟨rfl, by rw [allocate, hfree]⟩
  | cons s free => exact Or.inr ⟨s, free, rfl, allocate_of_free hfree⟩

/-- What is read is read from the slots in order, whatever the evaluator does. -/
theorem map_fst_of_run {p : Pool n} {eval : String → EStateM ε σ UInt32} {slots : List (Fin n)}
    {start last : σ} {readings : Readings n}
    (h : (slots.mapM fun s => return (s, ← eval (p.record s).expression)).run start =
      .ok readings last) : readings.map (·.1) = slots := by
  induction slots generalizing start last readings with
  | nil =>
    obtain ⟨rfl, -⟩ := EStateM.Result.ok.inj h
    rfl
  | cons s slots ih =>
    rw [List.mapM_cons, EStateM.run_bind, EStateM.run_bind] at h
    cases hvalue : (eval (p.record s).expression).run start with
    | error e s' =>
      rw [hvalue] at h
      exact absurd h (by simp)
    | ok value s' =>
      rw [hvalue] at h
      dsimp only [EStateM.run_pure] at h
      rw [EStateM.run_bind] at h
      cases hrest : (slots.mapM fun s => return (s, ← eval (p.record s).expression)).run s' with
      | error e s'' =>
        rw [hrest] at h
        exact absurd h (by simp)
      | ok rest s'' =>
        rw [hrest] at h
        obtain ⟨rfl, -⟩ := EStateM.Result.ok.inj h
        exact congrArg (s :: ·) (ih hrest)

/-- What a sweep has read and stored, whatever its evaluator does. -/
theorem sweep_run (p : Pool n) (eval : String → EStateM ε σ UInt32) (start : σ) :
    (p.sweep eval).run start =
      match (p.read eval).run start with
      | .ok readings s => .ok (p.changes readings, p.storeAll readings) s
      | .error e s => .error e s := by
  unfold sweep
  rw [EStateM.run_bind]
  cases (p.read eval).run start <;> rfl

/-- All that an operation that is not refused can do to a pool. -/
inductive Moves (p : Pool n) : Op ε σ → Answer → Pool n → Prop
  | allocate {expression : Option String} {value : Option UInt32} {s : Fin n} {free : List (Fin n)}
      (hfree : p.free = s :: free) (e : String) (v : UInt32) :
      Moves p (.allocate expression value) (.taken (p.record s))
        (fill { p with free, active := s :: p.active } s e v)
  | release {id : WatchpointId} {p' : Pool n} (h : p.release id = .ok p') :
      Moves p (.release id) .done p'
  | sweep {eval : String → EStateM ε σ UInt32} {start : σ} (readings : Readings n) :
      Moves p (.sweep eval start) (.swept (p.changes readings)) (p.storeAll readings)
  | clear : Moves p .clear .done p.clear

theorem moves_of_apply {p p' : Pool n} {op : Op ε σ} {answer : Answer}
    (h : p.apply op = .ok (answer, p')) : Moves p op answer p' := by
  unfold apply at h
  cases op with
  | allocate expression value =>
    rcases p.allocate_cases with ⟨-, ha⟩ | ⟨s, free, hfree, ha⟩
    · rw [ha] at h
      exact absurd h (by simp)
    · rw [ha] at h
      obtain ⟨rfl, rfl⟩ := Prod.mk.inj (Except.ok.inj h)
      exact .allocate hfree _ _
  | release id =>
    dsimp only at h
    split at h
    · rename_i p₁ hr
      obtain ⟨rfl, rfl⟩ := Prod.mk.inj (Except.ok.inj h)
      exact .release hr
    · exact absurd h (by simp)
  | sweep eval start =>
    dsimp only at h
    rw [sweep_run] at h
    cases hread : (p.read eval).run start with
    | error e s =>
      rw [hread] at h
      exact absurd h (by simp)
    | ok readings s =>
      rw [hread] at h
      obtain ⟨rfl, rfl⟩ := Prod.mk.inj (Except.ok.inj h)
      exact .sweep readings
  | clear =>
    obtain ⟨rfl, rfl⟩ := Prod.mk.inj (Except.ok.inj h)
    exact .clear

/-- **All that an operation can do**: it is refused and leaves the pool as it was, or it moves. -/
theorem step_cases (p : Pool n) (op : Op ε σ) :
    (∃ e, p.step op = (.error e, p)) ∨
      ∃ answer p', p.step op = (.ok answer, p') ∧ Moves p op answer p' := by
  unfold step
  cases h : p.apply op with
  | error e => exact Or.inl ⟨e, rfl⟩
  | ok done => exact Or.inr ⟨done.1, done.2, rfl, moves_of_apply h⟩

/-! ## What every run preserves -/

theorem Moves.wellFormed {p p' : Pool n} {op : Op ε σ} {answer : Answer}
    (h : Moves p op answer p') (hp : p.WellFormed) : p'.WellFormed := by
  cases h with
  | @allocate _ _ s free hfree e v => exact (hp.allocate (allocate_of_free hfree)).fill s e v
  | release h => exact hp.release h
  | sweep readings => exact hp.storeAll readings
  | clear => exact hp.clear

theorem wellFormed_step (p : Pool n) (op : Op ε σ) (h : p.WellFormed) :
    (p.step op).2.WellFormed := by
  rcases p.step_cases op with ⟨e, hstep⟩ | ⟨answer, p', hstep, hmoves⟩
  · rw [hstep]
    exact h
  · rw [hstep]
    exact hmoves.wellFormed h

/-- **Every run of operations keeps a pool well-formed.** -/
theorem wellFormed_stateAfter (capacity : Nat) (ops : List (Op ε σ)) :
    (stateAfter step (empty capacity) ops).WellFormed :=
  stateAfter_induction wellFormed_step (wellFormed_empty capacity) ops

namespace WellFormed

variable {p : Pool n}

theorem length_add_length (h : p.WellFormed) : p.free.length + p.active.length = n := by
  have hlen := h.perm.length_eq
  rwa [List.length_append, List.length_finRange] at hlen

/-- **A slot is refused just when all are active.** -/
theorem allocate_eq_error_iff (h : p.WellFormed) {e : WatchError} :
    p.allocate = .error e ↔ e = .poolExhausted n ∧ p.active.length = n := by
  have hlen := h.length_add_length
  rcases p.allocate_cases with ⟨hfree, ha⟩ | ⟨s, free, hfree, ha⟩
  · rw [hfree, List.length_nil, Nat.zero_add] at hlen
    rw [ha]
    simp [hlen, eq_comm]
  · rw [hfree, List.length_cons] at hlen
    rw [ha]
    simp
    omega

end WellFormed

end MachineMonitor.Pool
