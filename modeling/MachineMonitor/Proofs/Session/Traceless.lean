import MachineMonitor.Proofs.Session.InPlace

/-!
# Requests that leave no trace

A request that is answered with an error has changed nothing: not the registers or the memory, no
slot of the pool, and not the order of the active or of the free ones. Nor has one that only looks.
What follows cannot tell whether such a request was made.

Results:
* `handle_eq_of_isRefusal`: a request that is refused leaves the session as it was.
* `handle_eq_of_onlyLooks`: so does a request that only looks, whatever is answered.
* `answers_without_traceless`: any such requests can be left out of a session, and the answers to
  all the others stay the same. The requests are carried out in place, so that a write made before
  a check would show.
-/

namespace MachineMonitor

/-- Requests that do not ask for a change of the session. -/
def Request.OnlyLooks : Request → Prop
  | .eval _ | .watches | .registers | .scan _ _ | .shutdown => True
  | .watch _ | .delete _ | .sweep | .clear | .setRegister _ _ | .writeMemory _ _ _ => False

namespace Session

/-- Answers that say what went wrong. -/
def IsRefusal : Option Response → Prop
  | some (.error _) => True
  | _ => False

/-- A request that is refused, or that only looks. -/
def Traceless (r : Request) (answer : Option Response) : Prop := IsRefusal answer ∨ r.OnlyLooks

/-! ## One request -/

theorem handle_eq_of_onlyLooks (s : Session) {r : Request} (h : r.OnlyLooks) :
    (s.handle r).2 = s := by
  cases r with
  | watches | registers | shutdown => rfl
  | eval expr =>
    rw [handle]
    cases s.evaluate expr <;> rfl
  | scan count addr =>
    rw [handle]
    cases s.scanMemory count addr <;> rfl
  | watch | delete | sweep | clear | setRegister | writeMemory => exact h.elim

/-- A failure is told, or there is no answer. -/
theorem described_or (s : Session) (text? : Option String) :
    (∃ message, (text?.map Response.error, s) = (some (.error message), s)) ∨
      ¬ IsRefusal (text?.map Response.error) := by
  cases text? with
  | none => exact Or.inr id
  | some text => exact Or.inl ⟨text, rfl⟩

/-- A request is refused and leaves the session as it was, or it is not refused. -/
theorem handle_refused_or (s : Session) (r : Request) :
    (∃ message, s.handle r = (some (.error message), s)) ∨ ¬ IsRefusal (s.handle r).1 := by
  cases r with
  | watches | registers | shutdown | clear => exact Or.inr id
  | eval expr =>
    rw [handle]
    cases s.evaluate expr with
    | ok value => exact Or.inr id
    | error e => exact described_or s (describe? e expr)
  | watch expr =>
    rw [handle]
    cases s.watchCreate expr with
    | ok created => exact Or.inr id
    | error e => exact Or.inl ⟨_, rfl⟩
  | delete id =>
    rw [handle]
    cases s.watchDelete id with
    | ok s' => exact Or.inr False.elim
    | error e => exact Or.inl ⟨_, rfl⟩
  | sweep =>
    rw [handle]
    cases s.watchSweep with
    | ok swept => exact Or.inr id
    | error e => exact Or.inl ⟨_, rfl⟩
  | scan count addr =>
    rw [handle]
    cases s.scanMemory count addr with
    | ok words => exact Or.inr id
    | error e => exact described_or s (describe? e addr)
  | setRegister name value =>
    rw [handle]
    cases s.target.setRegister (registerName name) value with
    | ok m => exact Or.inr id
    | error e => exact Or.inl ⟨_, rfl⟩
  | writeMemory address value width =>
    rw [handle]
    cases s.target.writeMemory address width value with
    | ok m => exact Or.inr id
    | error e => exact Or.inl ⟨_, rfl⟩

theorem handle_eq_of_isRefusal (s : Session) {r : Request} (h : IsRefusal (s.handle r).1) :
    (s.handle r).2 = s := by
  rcases s.handle_refused_or r with ⟨message, hrefused⟩ | hanswered
  · rw [hrefused]
  · exact absurd h hanswered

theorem handle_eq_of_traceless (s : Session) {r : Request} (h : Traceless r (s.handle r).1) :
    (s.handle r).2 = s := by
  rcases h with h | h
  · exact s.handle_eq_of_isRefusal h
  · exact s.handle_eq_of_onlyLooks h

/-! ## Whole sessions -/

/-- **Requests that leave no trace can be left out.** In every state of a session, a request carried
out in place does what is promised; one that is refused or only looks leaves the whole state as it
was. So any set of such requests can be taken out of a sequence, and the answers to all the others
stay the same. -/
theorem answers_without_traceless {c : Config} {s : Session} (hs : ofConfig c = .ok s) :
    (∀ (past : List Request) (r : Request),
      let now := stateAfter handle s past
      now.carryOut r = now.handle r ∧
        (Traceless r (now.handle r).1 → (now.handle r).2 = now)) ∧
      ∀ (requests : List Request) (D : Nat → Bool),
        (∀ i r answer, requests[i]? = some r → (answers handle s requests)[i]? = some answer →
          D i = true → Traceless r answer) →
        answers handle s (without D requests) = without D (answers handle s requests) := by
  refine ⟨fun past r => ?_, fun requests D htraceless => ?_⟩
  · exact ⟨carryOut_stateAfter hs past r, handle_eq_of_traceless _⟩
  · refine answers_without fun i r hr hD => handle_eq_of_traceless _ ?_
    refine htraceless i r _ hr ?_ hD
    rw [getElem?_answers, hr, Option.map_some]

/-- A quotient by zero and a look at the watchpoints are left out. -/
theorem answers_without_traceless_refused :
    let s : Session := { target := {}, capacity := 1 }
    let requests : List Request :=
      [.watch "1 / $a0", .setRegister "$a0" 5, .watches, .watch "$a0"]
    let D : Nat → Bool := fun i => i == 0 || i == 2
    ofConfig { capacity := 1 } = .ok s ∧
      (∀ i r answer, requests[i]? = some r → (answers handle s requests)[i]? = some answer →
        D i = true → Traceless r answer) ∧
      answers handle s [.setRegister "$a0" 5, .watch "$a0"] =
        [some .done, some (.watch 0 5 "$a0")] := by
  intro s requests D
  have hs : ofConfig { capacity := 1 } = .ok s := rfl
  have hcreate : s.watchCreate "1 / $a0" = .error (.eval .divideByZero) := by decide +kernel
  have hrefused : s.handle (.watch "1 / $a0") =
      (some (.error (MonitorError.eval .divideByZero).message), s) := by
    rw [handle, hcreate]
  have htraceless : ∀ i r answer, requests[i]? = some r →
      (answers handle s requests)[i]? = some answer → D i = true → Traceless r answer := by
    intro i r answer hr hanswer hD
    have hi : i = 0 ∨ i = 2 := by simpa [D] using hD
    rcases hi with rfl | rfl
    · rw [answers, hrefused] at hanswer
      obtain rfl := Option.some.inj hanswer
      exact Or.inl trivial
    · obtain rfl := Option.some.inj hr
      exact Or.inr trivial
  refine ⟨hs, htraceless, ?_⟩
  refine ((answers_without_traceless hs).2 requests D htraceless).trans ?_
  rw [answers, hrefused]
  show without (fun i => D (i + 1)) (answers handle s requests.tail) = _
  decide +kernel

end Session

end MachineMonitor
