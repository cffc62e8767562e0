import MachineMonitor.Proofs.Machine.InPlace
import MachineMonitor.Proofs.Monitor.InPlace
import MachineMonitor.Proofs.Monitor.Run
import MachineMonitor.Proofs.Transcript
import MachineMonitor.Session

/-!
# Requests carried out in place

The operations of a session give a new state only if they succeed. Here each request is carried out
by a program that works in place, so a write that is made before a check would show; the operations
of the session are what these programs do.

Results:
* `carryOut_stateAfter`: each request, in every state that a session can be in.
* `answers_carryOut`: all requests of a session.
-/

namespace MachineMonitor.Session

/-! ## One request -/

/-- Answers with what a program gives, or with the text of its failure, if there is one. -/
def respond {ε α : Type} (answer : α → Response) (message? : ε → Option String) :
    EStateM.Result ε Session α → Option Response × Session
  | .ok a s => (some (answer a), s)
  | .error e s => ((message? e).map .error, s)

/-- Carries out a request in place. -/
def carryOut (s : Session) : Request → Option Response × Session
  | .eval expr => respond .ofValue (describe? · expr) ((Monitor.look (·.evaluate expr)).run s)
  | .watch expr =>
    respond (fun (id, value) => .watch id value expr) (some ·.message)
      ((Monitor.putWatch expr).run s)
  | .delete id =>
    respond (fun _ => .done) (some ·.message) ((Monitor.onPool (Pool.giveBack id)).run s)
  | .watches => (some (.watches s.watchList), s)
  | .sweep =>
    respond .changes (fun e => some s!"Invalid watch expression: {e.message}")
      ((Monitor.onPool (Pool.updateAll s.evaluate)).run s)
  | .clear => respond (fun _ => .done) Empty.elim ((Monitor.onPool Pool.giveAllBack).run s)
  | .registers => (some (.registers s.registers), s)
  | .scan count addr =>
    respond .memory (describe? · addr) ((Monitor.look (·.scanMemory count addr)).run s)
  | .setRegister name value =>
    respond (fun _ => .done) (some ·.message)
      ((Monitor.onTarget (Machine.putRegister (registerName name) value)).run s)
  | .writeMemory address value width =>
    respond (fun _ => .done) (some ·.message)
      ((Monitor.onTarget (Machine.putMemory address width value)).run s)
  | .shutdown => (some .done, s)

/-- Carrying out a request in place is handling it, in a state whose pool is in order. -/
theorem carryOut_eq {s : Session} (h : s.pool.WellFormed) (r : Request) :
    s.carryOut r = s.handle r := by
  cases r with
  | watches | registers | shutdown => rfl
  | eval expr =>
    rw [carryOut, Monitor.look_run, handle]
    cases s.evaluate expr <;> rfl
  | scan count addr =>
    rw [carryOut, Monitor.look_run, handle]
    cases s.scanMemory count addr <;> rfl
  | watch expr =>
    rw [carryOut, s.putWatch_run expr, handle]
    cases s.watchCreate expr <;> rfl
  | delete id =>
    rw [carryOut, s.giveBack_run id, handle]
    cases s.watchDelete id <;> rfl
  | sweep =>
    rw [carryOut, Monitor.updateAll_run h, handle]
    cases s.watchSweep <;> rfl
  | clear => rw [carryOut, Monitor.giveAllBack_run]; rfl
  | setRegister name value =>
    rw [carryOut, Monitor.onTarget_run, Machine.putRegister_run, within_orKeep, handle]
    cases s.target.setRegister (registerName name) value <;> rfl
  | writeMemory address value width =>
    rw [carryOut, Monitor.onTarget_run, Machine.putMemory_run, within_orKeep, handle]
    cases s.target.writeMemory address width value <;> rfl

/-! ## Every state of a session -/

/-- A request does what an action of the monitor does, if it does anything. -/
theorem handle_eq_step (s : Session) (r : Request) :
    (s.handle r).2 = s ∨ ∃ a, (s.handle r).2 = s.step a := by
  cases r with
  | watches | registers | shutdown => exact Or.inl rfl
  | eval expr =>
    rw [handle]
    cases s.evaluate expr <;> exact Or.inl rfl
  | scan count addr =>
    rw [handle]
    cases s.scanMemory count addr <;> exact Or.inl rfl
  | watch expr =>
    refine Or.inr ⟨.create expr, ?_⟩
    rw [handle, Monitor.step]
    cases s.watchCreate expr <;> rfl
  | delete id =>
    refine Or.inr ⟨.delete id, ?_⟩
    rw [handle, Monitor.step]
    cases s.watchDelete id <;> rfl
  | sweep =>
    refine Or.inr ⟨.sweep, ?_⟩
    rw [handle, Monitor.step]
    cases s.watchSweep <;> rfl
  | clear => exact Or.inr ⟨.clear, rfl⟩
  | setRegister name value =>
    rw [handle]
    cases s.target.setRegister (registerName name) value with
    | error e => exact Or.inl rfl
    | ok m => exact Or.inr ⟨.mutate fun _ => m, rfl⟩
  | writeMemory address value width =>
    rw [handle]
    cases s.target.writeMemory address width value with
    | error e => exact Or.inl rfl
    | ok m => exact Or.inr ⟨.mutate fun _ => m, rfl⟩

theorem wellFormed_handle (s : Session) (r : Request) (h : s.pool.WellFormed) :
    (s.handle r).2.pool.WellFormed := by
  rcases s.handle_eq_step r with hr | ⟨a, hr⟩
  · rw [hr]
    exact h
  · rw [hr]
    exact (Monitor.moves_step s a).wellFormed h

theorem wellFormed_ofConfig {c : Config} {s : Session} (h : ofConfig c = .ok s) :
    s.pool.WellFormed := by
  obtain ⟨m, -, hs⟩ := ok_of_bind h
  obtain rfl := Except.ok.inj hs
  exact Pool.wellFormed_empty c.capacity

/-- **Carrying out a request in place is handling it**, in every state of every session. -/
theorem carryOut_stateAfter {c : Config} {s : Session} (h : ofConfig c = .ok s)
    (past : List Request) (r : Request) :
    (stateAfter handle s past).carryOut r = (stateAfter handle s past).handle r :=
  carryOut_eq (stateAfter_induction (P := fun s : Session => s.pool.WellFormed) wellFormed_handle
    (wellFormed_ofConfig h) past) r

/-- A session whose requests are carried out in place answers alike. -/
theorem answers_carryOut {c : Config} {s : Session} (h : ofConfig c = .ok s)
    (requests : List Request) : answers carryOut s requests = answers handle s requests := by
  have hstep : ∀ (s t : Session) (r : Request), s = t ∧ t.pool.WellFormed →
      (s.carryOut r).1 = (t.handle r).1 ∧
        (s.carryOut r).2 = (t.handle r).2 ∧ (t.handle r).2.pool.WellFormed := by
    intro s t r ⟨hst, hpool⟩
    rw [hst, carryOut_eq hpool]
    exact ⟨rfl, rfl, wellFormed_handle t r hpool⟩
  exact (answers_eq_of_simulates hstep ⟨rfl, wellFormed_ofConfig h⟩ requests).1

end MachineMonitor.Session
