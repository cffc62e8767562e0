import MachineMonitor.Proofs.Monitor.InPlace
import MachineMonitor.Proofs.Watch.Operations

/-!
# The calls of a sweep

A sweep calls its evaluator once for each active record and updates the records in place when all
calls have succeeded. The evaluator has a state of its own, which it finds as the call before has
left it. So what a sweep does is told by its calls: by the values that they return, one after the
other, or by the first one that fails.

Results:
* `calls_cases`: all calls succeed, or there is a first one that fails.
* `sweepInPlace_run`: a sweep in place does what a sweep does.
* `sweep_of_calls`, `sweep_of_failure`: a sweep by its calls.
* `sweepInPlace_cases`: every sweep of every pool that operations lead to.
-/

namespace MachineMonitor.Pool

variable {n : Nat} {ε σ α : Type}

/-! ## Calls -/

/-- Calls that succeed one after the other, with the expressions that the evaluator is called with,
the values that it returns and the states that it has before and afterwards. -/
inductive Calls (eval : String → EStateM ε σ UInt32) : σ → List String → List UInt32 → σ → Prop
  | nil (s : σ) : Calls eval s [] [] s
  | cons {s s' s'' : σ} {expr : String} {exprs : List String} {value : UInt32}
      {values : List UInt32} (hcall : (eval expr).run s = .ok value s')
      (hrest : Calls eval s' exprs values s'') :
      Calls eval s (expr :: exprs) (value :: values) s''

/-- An evaluator that keeps a list of what it was called with. -/
def recording (eval : String → EStateM ε σ UInt32) (expr : String) :
    EStateM ε (σ × List String) UInt32 :=
  fun (s, log) => within (·, log ++ [expr]) ((eval expr).run s)

section

variable {eval : String → EStateM ε σ UInt32} {s s' : σ} {exprs : List String}
  {values : List UInt32}

theorem Calls.length_eq (h : Calls eval s exprs values s') : values.length = exprs.length := by
  induction h with
  | nil => rfl
  | cons _ _ ih => exact congrArg (· + 1) ih

/-- **All calls succeed, or there is a first one that fails.** -/
theorem calls_cases (eval : String → EStateM ε σ UInt32) (s : σ) (exprs : List String) :
    (∃ values s', Calls eval s exprs values s') ∨
      ∃ before expr after values s' e s'', exprs = before ++ expr :: after ∧
        Calls eval s before values s' ∧ (eval expr).run s' = .error e s'' := by
  induction exprs generalizing s with
  | nil => exact Or.inl ⟨[], s, .nil s⟩
  | cons expr exprs ih =>
    cases hcall : (eval expr).run s with
    | error e s' => exact Or.inr ⟨[], expr, exprs, [], s, e, s', rfl, .nil s, hcall⟩
    | ok value s' =>
      rcases ih s' with ⟨values, s'', h⟩ | ⟨before, failing, after, values, t, e, t', rfl, h, hfail⟩
      · exact Or.inl ⟨value :: values, s'', .cons hcall h⟩
      · exact Or.inr ⟨expr :: before, failing, after, value :: values, t, e, t', rfl,
          .cons hcall h, hfail⟩

theorem Calls.recording (h : Calls eval s exprs values s') (log : List String) :
    Calls (recording eval) (s, log) exprs values (s', log ++ exprs) := by
  induction h generalizing log with
  | nil s =>
    rw [List.append_nil]
    exact .nil _
  | @cons s s' s'' expr exprs value values hcall _ ih =>
    have hrecorded : (Pool.recording eval expr).run (s, log) = .ok value (s', log ++ [expr]) :=
      congrArg (within _) hcall
    rw [List.append_cons]
    exact .cons hrecorded (ih (log ++ [expr]))

theorem recording_run_error {expr : String} {e : ε} (h : (eval expr).run s = .error e s')
    (log : List String) :
    (recording eval expr).run (s, log) = .error e (s', log ++ [expr]) :=
  congrArg (within _) h

/-! ## Sweeps by their calls -/

variable {p : Pool n} {slots : List (Fin n)}

theorem mapM_of_calls (h : Calls eval s (slots.map fun i => (p.record i).expression) values s') :
    (slots.mapM fun i => return (i, ← eval (p.record i).expression)).run s =
      .ok (slots.zip values) s' := by
  induction slots generalizing s values with
  | nil =>
    cases h
    rfl
  | cons i slots ih =>
    cases h with
    | cons hcall hrest =>
      rw [List.mapM_cons, EStateM.run_bind, EStateM.run_bind, hcall]
      dsimp only [EStateM.run_pure]
      rw [EStateM.run_bind, ih hrest]
      rfl

theorem mapM_of_failure {newer older : List (Fin n)} {i : Fin n} {e : ε} {s'' : σ}
    (h : Calls eval s (newer.map fun i => (p.record i).expression) values s')
    (hfail : (eval (p.record i).expression).run s' = .error e s'') :
    ((newer ++ i :: older).mapM fun i => return (i, ← eval (p.record i).expression)).run s =
      .error e s'' := by
  induction newer generalizing s values with
  | nil =>
    cases h
    rw [List.nil_append, List.mapM_cons, EStateM.run_bind, EStateM.run_bind, hfail]
  | cons i newer ih =>
    cases h with
    | cons hcall hrest =>
      rw [List.cons_append, List.mapM_cons, EStateM.run_bind, EStateM.run_bind, hcall]
      dsimp only [EStateM.run_pure]
      rw [EStateM.run_bind, ih hrest]

/-- The records whose values are not the ones on record. -/
def differing (ws : List Watchpoint) (values : List UInt32) : List WatchChange :=
  ((ws.zip values).filter fun (w, value) => value != w.lastValue).map fun (w, value) =>
    ⟨w.id, w.expression, w.lastValue, value⟩

theorem changes_zip (p : Pool n) (slots : List (Fin n)) (values : List UInt32) :
    p.changes (slots.zip values) = differing (slots.map p.record) values := by
  unfold changes differing
  induction slots generalizing values with
  | nil => rfl
  | cons i slots ih =>
    cases values with
    | nil => rfl
    | cons value values =>
      rw [List.map_cons, List.zip_cons_cons, List.zip_cons_cons, List.filterMap_cons, ih]
      by_cases hvalue : value = (p.record i).lastValue <;> simp [change?, hvalue]

end

/-! ## Sweeps in place -/

/-- Works on a pool. -/
def onSlots (program : EStateM ε (Pool n) α) : EStateM ε (Pool n × σ) α :=
  fun (p, s) => within (·, s) (program.run p)

/-- Calls an evaluator. -/
def onEvaluator (program : EStateM ε σ α) : EStateM ε (Pool n × σ) α :=
  fun (p, s) => within (p, ·) (program.run s)

/-- Evaluates the expressions of some slots. -/
def readInPlace (eval : String → EStateM ε σ UInt32) :
    List (Fin n) → EStateM ε (Pool n × σ) (Readings n)
  | [] => return []
  | slot :: slots => do
    let value ← onEvaluator (eval ((← get).1.record slot).expression)
    return (slot, value) :: (← readInPlace eval slots)

/-- Evaluates the active expressions, and then stores the values that are new. -/
def sweepInPlace (eval : String → EStateM ε σ UInt32) :
    EStateM ε (Pool n × σ) (List WatchChange) := do
  let readings ← readInPlace eval (← get).1.active
  onSlots (update readings)

/-- The outcome of an evaluator that gives a new pool, or fails and leaves the old one. -/
def keeping (p : Pool n) :
    EStateM.Result ε σ (α × Pool n) → EStateM.Result ε (Pool n × σ) α
  | .ok (a, p') s => .ok a (p', s)
  | .error e s => .error e (p, s)

section

variable {eval : String → EStateM ε σ UInt32} {s s' : σ} {values : List UInt32} {p : Pool n}

theorem readInPlace_run (eval : String → EStateM ε σ UInt32) (p : Pool n) (s : σ)
    (slots : List (Fin n)) :
    (readInPlace eval slots).run (p, s) =
      within (p, ·)
        ((slots.mapM fun i => return (i, ← eval (p.record i).expression)).run s) := by
  induction slots generalizing s with
  | nil => rfl
  | cons i slots ih =>
    have hcall : (onEvaluator (eval (p.record i).expression)).run (p, s) =
      within (p, ·) ((eval (p.record i).expression).run s) := rfl
    rw [readInPlace, EStateM.run_bind, EStateM.run_get, List.mapM_cons, EStateM.run_bind,
      EStateM.run_bind]
    dsimp only
    rw [EStateM.run_bind, hcall]
    cases (eval (p.record i).expression).run s with
    | error e s' => rfl
    | ok value s' =>
      dsimp only [within, EStateM.run_pure]
      rw [EStateM.run_bind, EStateM.run_bind, ih]
      cases (slots.mapM fun i => return (i, ← eval (p.record i).expression)).run s' <;> rfl

/-- **A sweep in place does what a sweep does**: it leaves the pool as it is when it fails. -/
theorem sweepInPlace_run (h : p.WellFormed) (eval : String → EStateM ε σ UInt32) (s : σ) :
    (sweepInPlace eval).run (p, s) = keeping p ((p.sweep eval).run s) := by
  unfold sweepInPlace
  rw [EStateM.run_bind, EStateM.run_get, sweep_run, Pool.read]
  dsimp only
  rw [EStateM.run_bind, readInPlace_run]
  cases hread : (p.active.mapM fun i => return (i, ← eval (p.record i).expression)).run s with
  | error e s' => rfl
  | ok readings s' =>
    have hslots := map_fst_of_run hread
    exact congrArg (within (·, s')) (p.update_run (hslots ▸ h.active_nodup))

/-- A sweep whose calls succeed. -/
theorem sweep_of_calls
    (h : Calls eval s (p.toList.map (·.expression)) values s') :
    (p.sweep eval).run s =
      .ok (differing p.toList values, p.storeAll (p.active.zip values)) s' := by
  rw [toList, List.map_map] at h
  rw [sweep_run, Pool.read, mapM_of_calls h]
  dsimp only
  rw [changes_zip]
  rfl

/-- A sweep with a call that fails. -/
theorem sweep_of_failure {newer older : List Watchpoint} {w : Watchpoint} {e : ε} {s'' : σ}
    (hsplit : p.toList = newer ++ w :: older)
    (h : Calls eval s (newer.map (·.expression)) values s')
    (hfail : (eval w.expression).run s' = .error e s'') :
    (p.sweep eval).run s = .error e s'' := by
  obtain ⟨slots, rest, hactive, rfl, hrest⟩ := List.map_eq_append_iff.mp hsplit
  obtain ⟨i, older', rfl, rfl, rfl⟩ := List.map_eq_cons_iff.mp hrest
  rw [List.map_map] at h
  rw [sweep_run, Pool.read, hactive, mapM_of_failure h hfail]

/-! ## After a sweep -/

theorem map_fst_zip (hlen : values.length = p.toList.length) :
    (p.active.zip values).map (·.1) = p.active := by
  rw [toList, List.length_map] at hlen
  exact List.map_fst_zip (Nat.le_of_eq hlen.symm)

/-- What values for the active records do to a pool: these records have them, and nothing else is
changed. -/
structure Updated (p : Pool n) (values : List UInt32) (p' : Pool n) : Prop where
  toList_eq : p'.toList = p.toList.zipWith (fun w value => { w with lastValue := value }) values
  active_eq : p'.active = p.active
  free_eq : p'.free = p.free
  id_eq (i : Fin n) : (p'.record i).id = (p.record i).id
  expression_eq (i : Fin n) : (p'.record i).expression = (p.record i).expression
  record_eq {i : Fin n} (hi : i ∉ p.active) : p'.record i = p.record i

theorem WellFormed.updated (h : p.WellFormed) (hlen : values.length = p.toList.length) :
    Updated p values (p.storeAll (p.active.zip values)) where
  toList_eq := by
    rw [h.toList_storeAll (map_fst_zip hlen), toList, List.zip, List.map_zipWith,
      List.zipWith_map_left]
  active_eq := p.active_storeAll _
  free_eq := p.free_storeAll _
  id_eq := p.id_storeAll _
  expression_eq := p.expression_storeAll _
  record_eq hi := record_storeAll_of_not_mem ((map_fst_zip hlen).symm ▸ hi)

/-- **The same values once more** change nothing. -/
theorem WellFormed.sweep_of_same_calls (h : p.WellFormed) (hlen : values.length = p.toList.length)
    {ε' τ : Type} {eval' : String → EStateM ε' τ UInt32} {t t' : τ}
    (hcalls : Calls eval' t (p.toList.map (·.expression)) values t') :
    let p' := p.storeAll (p.active.zip values)
    (p'.sweep eval').run t = .ok ([], p') t' := by
  intro p'
  have hrecorded : ∀ r ∈ p.active.zip values, r.2 = (p'.record r.1).lastValue := by
    intro r hr
    have hnodup : ((p.active.zip values).map (·.1)).Nodup :=
      (map_fst_zip hlen).symm ▸ h.active_nodup
    rw [record_storeAll_of_mem hnodup hr]
  have hactive : p'.active = p.active := p.active_storeAll _
  have hexprs : p'.toList.map (·.expression) = p.toList.map (·.expression) := by
    rw [toList, toList, hactive, List.map_map, List.map_map]
    exact List.map_congr_left fun i _ => p.expression_storeAll _ i
  rw [sweep_of_calls (hexprs.symm ▸ hcalls), toList, ← changes_zip, hactive,
    changes_of_recorded hrecorded, storeAll_of_recorded hrecorded]

end

/-! ## Every sweep -/

/-- **Every sweep** of a pool that operations lead to, with any evaluator in any state. It calls the
evaluator for the active records, the newest first, with their expressions. If a call fails, there
are no further ones, the sweep fails as the call does and the pool is as it was. If all succeed, the
active records have the values that the calls returned and nothing else is changed; the sweep
reports, the newest first, the records which had other values, and another sweep whose calls return
the same values reports nothing. -/
theorem sweepInPlace_cases {ε' σ' : Type} (capacity : Nat) (ops : List (Op ε' σ'))
    (eval : String → EStateM ε σ UInt32) (start : σ) :
    let p := stateAfter step (empty capacity) ops
    let expressions (ws : List Watchpoint) := ws.map (·.expression)
    (sweepInPlace eval).run (p, start) = keeping p ((p.sweep eval).run start) ∧
    ((∃ newer w older values s e s', p.toList = newer ++ w :: older ∧
        Calls eval start (expressions newer) values s ∧
        (eval w.expression).run s = .error e s' ∧
        (sweepInPlace eval).run (p, start) = .error e (p, s') ∧
        (sweepInPlace (recording eval)).run (p, start, []) =
          .error e (p, s', expressions (newer ++ [w]))) ∨
      ∃ values s p', Calls eval start (expressions p.toList) values s ∧
        (sweepInPlace eval).run (p, start) = .ok (differing p.toList values) (p', s) ∧
        (sweepInPlace (recording eval)).run (p, start, []) =
          .ok (differing p.toList values) (p', s, expressions p.toList) ∧
        Updated p values p' ∧
        ∀ {ε'' τ : Type} (eval' : String → EStateM ε'' τ UInt32) (t t' : τ),
          Calls eval' t (expressions p.toList) values t' →
            (sweepInPlace eval').run (p', t) = .ok [] (p', t')) := by
  intro p expressions
  have hp : p.WellFormed := wellFormed_stateAfter capacity ops
  refine ⟨sweepInPlace_run hp eval start, ?_⟩
  rcases calls_cases eval start (expressions p.toList) with
    ⟨values, s, hcalls⟩ | ⟨before, expr, after, values, s, e, s', hsplit, hcalls, hfail⟩
  · have hlen : values.length = p.toList.length := hcalls.length_eq.trans (List.length_map _)
    refine Or.inr ⟨values, s, p.storeAll (p.active.zip values), hcalls, ?_, ?_, hp.updated hlen,
      fun eval' t t' hsame => ?_⟩
    · rw [sweepInPlace_run hp, sweep_of_calls hcalls, keeping]
    · rw [sweepInPlace_run hp, sweep_of_calls (hcalls.recording []), List.nil_append,
        keeping]
    · rw [sweepInPlace_run (hp.storeAll _), hp.sweep_of_same_calls hlen hsame, keeping]
  · obtain ⟨newer, rest, hws, rfl, hrest⟩ := List.map_eq_append_iff.mp hsplit
    obtain ⟨w, older, rfl, rfl, rfl⟩ := List.map_eq_cons_iff.mp hrest
    refine Or.inl ⟨newer, w, older, values, s, e, s', hws, hcalls, hfail, ?_, ?_⟩
    · rw [sweepInPlace_run hp, sweep_of_failure hws hcalls hfail, keeping]
    · rw [sweepInPlace_run hp, sweep_of_failure hws (hcalls.recording [])
        (recording_run_error hfail _), List.nil_append, keeping]
      simp only [expressions, List.map_append, List.map_cons, List.map_nil]

/-- An evaluator that counts its calls gives the newest record the first number, and the other one
the number that it has. -/
example :
    let taken : List (Op Unit Nat) :=
      [.allocate (some "a") (some 1), .allocate (some "b") (some 7)]
    let count (_ : String) : EStateM Unit Nat UInt32 :=
      modifyGet fun calls => (UInt32.ofNat calls, calls + 1)
    match (sweepInPlace count).run (stateAfter step (empty 2) taken, 0) with
    | .ok changes (p', calls) => changes = [⟨1, "b", 7, 0⟩] ∧ p'.active = [1, 0] ∧ calls = 2
    | .error _ _ => False := by
  cbv
  decide

end MachineMonitor.Pool
