import MachineMonitor.Proofs.Session.InPlace

/-!
# Watching does not disturb the machine

What a request sees of the machine depends on the configuration and on the writes that were made
before, and on nothing else: not on what was watched, deleted or swept in between, nor on whether
that succeeded.

Results:
* `handle_of_sameMachine`: a request that is not about watchpoints cannot tell apart two sessions
  with the same machine.
* `sameMachine_handle`: a request that does not write leaves the machine as it was.
* `answers_inspection`: an answer about the machine is the one that the writes before it lead to,
  and all requests about watchpoints can be left out.
-/

namespace MachineMonitor

namespace Request

/-- Requests that ask for a value of the machine. -/
def Inspects : Request → Prop
  | .eval _ | .scan _ _ | .registers => True
  | _ => False

/-- Requests that write to the machine. -/
def isWrite : Request → Bool
  | .setRegister _ _ | .writeMemory _ _ _ => true
  | _ => false

/-- Requests about watchpoints. -/
def isAboutWatches : Request → Bool
  | .watch _ | .delete _ | .watches | .sweep | .clear => true
  | _ => false

theorem isWrite_of_isAboutWatches {r : Request} (h : r.isAboutWatches = true) :
    r.isWrite = false := by
  cases r <;> first | rfl | exact absurd h Bool.false_ne_true

theorem not_isAboutWatches_of_isWrite {r : Request} (h : r.isWrite = true) :
    r.isAboutWatches = false := by
  cases r <;> first | rfl | exact absurd h Bool.false_ne_true

theorem Inspects.not_isAboutWatches {r : Request} (h : r.Inspects) : r.isAboutWatches = false := by
  cases r <;> first | rfl | exact h.elim

end Request

namespace Session

/-- Two sessions with the same machine and the same limits, whatever they watch. -/
structure SameMachine (s t : Session) : Prop where
  target : s.target = t.target
  limits : s.limits = t.limits

theorem SameMachine.refl (s : Session) : SameMachine s s := ⟨rfl, rfl⟩

theorem SameMachine.trans {s t u : Session} (h : SameMachine s t) (h' : SameMachine t u) :
    SameMachine s u :=
  ⟨h.target.trans h'.target, h.limits.trans h'.limits⟩

/-! ## One request -/

theorem SameMachine.evaluate_eq {s t : Session} (h : SameMachine s t) (expr : String) :
    s.evaluate expr = t.evaluate expr := by
  unfold Monitor.evaluate
  rw [h.target, h.limits]

theorem SameMachine.scanMemory_eq {s t : Session} (h : SameMachine s t) (count : UInt32)
    (expr : String) : s.scanMemory count expr = t.scanMemory count expr := by
  unfold Monitor.scanMemory
  rw [h.evaluate_eq, h.target]

theorem SameMachine.registers_eq {s t : Session} (h : SameMachine s t) :
    s.registers = t.registers := by
  unfold Monitor.registers
  rw [h.target]

/-- **A request that is not about watchpoints** cannot tell apart two sessions with the same
machine. -/
theorem handle_of_sameMachine {s t : Session} (h : SameMachine s t) {r : Request}
    (hr : r.isAboutWatches = false) :
    (s.handle r).1 = (t.handle r).1 ∧ SameMachine (s.handle r).2 (t.handle r).2 := by
  cases r with
  | watch | delete | watches | sweep | clear => exact Bool.noConfusion hr
  | shutdown => exact ⟨rfl, h⟩
  | registers => exact ⟨congrArg (some ∘ Response.registers) h.registers_eq, h⟩
  | eval expr =>
    rw [handle, handle, h.evaluate_eq]
    cases t.evaluate expr <;> exact ⟨rfl, h⟩
  | scan count addr =>
    rw [handle, handle, h.scanMemory_eq]
    cases t.scanMemory count addr <;> exact ⟨rfl, h⟩
  | setRegister name value =>
    rw [handle, handle, h.target]
    cases t.target.setRegister (registerName name) value with
    | ok m => exact ⟨rfl, rfl, h.limits⟩
    | error e => exact ⟨rfl, h⟩
  | writeMemory address value width =>
    rw [handle, handle, h.target]
    cases t.target.writeMemory address width value with
    | ok m => exact ⟨rfl, rfl, h.limits⟩
    | error e => exact ⟨rfl, h⟩

/-- **A request that does not write** leaves the machine as it was, whether it succeeds or not. -/
theorem sameMachine_handle (s : Session) {r : Request} (hr : r.isWrite = false) :
    SameMachine (s.handle r).2 s := by
  cases r with
  | setRegister | writeMemory => exact Bool.noConfusion hr
  | watches | registers | shutdown | clear => exact ⟨rfl, rfl⟩
  | eval expr =>
    rw [handle]
    cases s.evaluate expr <;> exact .refl s
  | scan count addr =>
    rw [handle]
    cases s.scanMemory count addr <;> exact .refl s
  | watch expr =>
    rw [handle]
    cases h : s.watchCreate expr with
    | error e => exact .refl s
    | ok created =>
      obtain ⟨slot, pool, -, -, -, hs⟩ := Monitor.watchCreate_eq_ok h
      simp only [hs]
      exact ⟨rfl, rfl⟩
  | delete id =>
    rw [handle]
    cases h : s.watchDelete id with
    | error e => exact .refl s
    | ok s' =>
      obtain ⟨pool, -, rfl⟩ := Monitor.watchDelete_eq_ok h
      exact ⟨rfl, rfl⟩
  | sweep =>
    rw [handle]
    cases h : s.watchSweep with
    | error e => exact .refl s
    | ok swept =>
      obtain ⟨pool, -, hs⟩ := Monitor.watchSweep_eq_ok h
      simp only [hs]
      exact ⟨rfl, rfl⟩

/-! ## Whole sessions -/

/-- The requests of some kinds, by themselves, lead to the same machine, if the others do not write
and these are not about watchpoints. -/
theorem answers_filter_of_kind {p : Request → Bool}
    (hkeep : ∀ r, p r = true → r.isAboutWatches = false)
    (hdrop : ∀ r, p r = false → r.isWrite = false) (s : Session) (requests : List Request) :
    answers handle s (requests.filter p) = answersTo p requests (answers handle s requests) ∧
      SameMachine (stateAfter handle s requests) (stateAfter handle s (requests.filter p)) := by
  have hseen : ∀ (s t : Session) (r : Request), SameMachine s t → p r = true →
      (s.handle r).1 = (t.handle r).1 ∧ SameMachine (s.handle r).2 (t.handle r).2 :=
    fun _ _ r h hr => handle_of_sameMachine h (hkeep r hr)
  have hunseen : ∀ (s t : Session) (r : Request), SameMachine s t → p r = false →
      SameMachine (s.handle r).2 t :=
    fun s _ r h hr => (s.sameMachine_handle (hdrop r hr)).trans h
  exact answers_filter hseen hunseen (.refl s) requests

/-- **Watching does not disturb the machine.** Whether requests are carried out in place or not, the
answer to a request for a value of the machine is the one that the request has after the writes that
were asked for before it, made in the same order at the start of the session. If all requests about
watchpoints are left out of a session, the answers to all the others stay the same. -/
theorem answers_inspection {c : Config} {s : Session} (hs : ofConfig c = .ok s)
    (requests : List Request) :
    answers carryOut s requests = answers handle s requests ∧
    (∀ i r, requests[i]? = some r → r.Inspects →
      (answers handle s requests)[i]? =
        some ((stateAfter handle s ((requests.take i).filter Request.isWrite)).handle r).1) ∧
    answers handle s (requests.filter (!·.isAboutWatches)) =
      answersTo (!·.isAboutWatches) requests (answers handle s requests) := by
  refine ⟨answers_carryOut hs requests, fun i r hr hinspects => ?_, ?_⟩
  · obtain ⟨-, hsame⟩ := answers_filter_of_kind (p := Request.isWrite)
      (fun _ => Request.not_isAboutWatches_of_isWrite) (fun _ => id) s (requests.take i)
    rw [getElem?_answers, hr, Option.map_some,
      (handle_of_sameMachine hsame hinspects.not_isAboutWatches).1]
  · refine (answers_filter_of_kind (fun r hr => ?_) (fun r hr => ?_) s requests).1
    · rwa [Bool.not_eq_true'] at hr
    · rw [Bool.not_eq_false'] at hr
      exact Request.isWrite_of_isAboutWatches hr

/-- A quotient by zero that is to be watched, and a sweep, do not show in the value of a
register. -/
theorem answers_inspection_refused :
    let s : Session := { target := {}, capacity := 1 }
    let requests : List Request :=
      [.watch "1 / $a0", .setRegister "$a0" 5, .watch "$a0", .sweep, .eval "$a0 + 1"]
    ofConfig { capacity := 1 } = .ok s ∧ requests[4]? = some (.eval "$a0 + 1") ∧
      (answers handle s requests)[4]? = some (some (.ofValue 6)) ∧
      answersTo (!·.isAboutWatches) requests (answers handle s requests) =
        [some .done, some (.ofValue 6)] := by
  intro s requests
  have hs : ofConfig { capacity := 1 } = .ok s := rfl
  obtain ⟨-, hinspect, hdelete⟩ := answers_inspection hs requests
  refine ⟨hs, rfl, ?_, ?_⟩
  · rw [hinspect 4 _ rfl trivial]
    decide +kernel
  · rw [← hdelete]
    decide +kernel

end Session

end MachineMonitor
