import MachineMonitor.Proofs.Expr.Caret
import MachineMonitor.Proofs.Expr.Rejection
import MachineMonitor.Proofs.Session.InPlace

/-!
# Requests that have no answer

Every failure has a text but one: a caret cannot be put under a place that is too far right. So it
shows in the limits and in the text of an expression alone, and not in what a session holds, whether
a request to evaluate the expression is answered.

Results:
* `limits_handle`: a session keeps its limits.
* `handle_eq_none_iff`: the requests that have no answer.
-/

namespace MachineMonitor

/-- The expression of a request, if the place of a failure is marked in it. -/
def Request.marked? : Request → Option String
  | .eval expr | .scan _ expr => some expr
  | _ => none

/-- A request with an expression in which no token matches, at a place that no caret can mark. -/
def Request.Unanswerable (limits : Expr.Limits) (r : Request) : Prop :=
  ∃ expr p, r.marked? = some expr ∧ Expr.tokenize limits expr = .error (.noMatch p) ∧
    Text.maxFieldWidth ≤ p

namespace Request

theorem unanswerable_of_marked {limits : Expr.Limits} {r : Request} {expr : String}
    (h : r.marked? = some expr) : r.Unanswerable limits ↔
      ∃ p, Expr.tokenize limits expr = .error (.noMatch p) ∧ Text.maxFieldWidth ≤ p := by
  unfold Unanswerable
  rw [h]
  simp only [Option.some.injEq, exists_and_left, exists_eq_left']

theorem not_unanswerable_of_none {limits : Expr.Limits} {r : Request} (h : r.marked? = none) :
    ¬ r.Unanswerable limits := by
  rintro ⟨expr, p, hmarked, -⟩
  exact nomatch h.symm.trans hmarked

end Request

namespace Session

theorem limits_handle (s : Session) (r : Request) : (s.handle r).2.limits = s.limits := by
  rcases s.handle_eq_step r with h | ⟨a, h⟩
  · rw [h]
  · rw [h]
    exact (Monitor.moves_step s a).limits_eq

/-- Only the place of a failed match may have no text. -/
theorem describe?_eq_none_iff {e : Expr.EvalError} {expr : String} : describe? e expr = none ↔
    ∃ p, e = .lex (.noMatch p) ∧ Text.maxFieldWidth ≤ p := by
  unfold describe?
  split
  · rename_i p
    rw [Expr.render?_eq_none_iff rfl]
    simp
  · rename_i hother
    refine iff_of_false (Option.some_ne_none _) ?_
    rintro ⟨p, rfl, -⟩
    exact hother p rfl

/-- A failure of an expression that is told has a text unless no token matches too far right. -/
theorem described_eq_none_iff (s : Session) {e : Expr.EvalError} {expr : String}
    (h : s.evaluate expr = .error e) : (describe? e expr).map Response.error = none ↔
      ∃ p, Expr.tokenize s.limits expr = .error (.noMatch p) ∧ Text.maxFieldWidth ≤ p := by
  rw [Option.map_eq_none_iff, describe?_eq_none_iff]
  refine exists_congr fun p => and_congr_left fun _ => ?_
  rw [← Expr.evaluate_eq_lex_iff s.target, show Expr.evaluate s.limits s.target expr = .error e
    from h, Except.error.injEq]

theorem not_unanswerable_of_evaluate (s : Session) {r : Request} {expr : String} {v : UInt32}
    (hmarked : r.marked? = some expr) (h : s.evaluate expr = .ok v) :
    ¬ r.Unanswerable s.limits := by
  rw [Request.unanswerable_of_marked hmarked]
  rintro ⟨p, hlex, -⟩
  have hfails := (Expr.evaluate_eq_lex_iff s.target s.limits expr (.noMatch p)).mpr hlex
  cases hfails.symm.trans h

/-- A request in which no place would be marked has an answer. -/
theorem handle_ne_none (s : Session) {r : Request} (h : r.marked? = none) :
    (s.handle r).1 ≠ none := by
  cases r with
  | eval | scan => cases h
  | watches | registers | shutdown | clear => exact Option.some_ne_none _
  | watch expr =>
    rw [handle]
    cases s.watchCreate expr <;> exact Option.some_ne_none _
  | delete id =>
    rw [handle]
    cases s.watchDelete id <;> exact Option.some_ne_none _
  | sweep =>
    rw [handle]
    cases s.watchSweep <;> exact Option.some_ne_none _
  | setRegister name value =>
    rw [handle]
    cases s.target.setRegister (registerName name) value <;> exact Option.some_ne_none _
  | writeMemory address value width =>
    rw [handle]
    cases s.target.writeMemory address width value <;> exact Option.some_ne_none _

/-- **The requests that have no answer.** -/
theorem handle_eq_none_iff (s : Session) (r : Request) :
    (s.handle r).1 = none ↔ r.Unanswerable s.limits := by
  cases r with
  | eval expr =>
    rw [handle]
    cases h : s.evaluate expr with
    | ok value => exact iff_of_false (Option.some_ne_none _) (s.not_unanswerable_of_evaluate rfl h)
    | error e => exact (s.described_eq_none_iff h).trans (Request.unanswerable_of_marked rfl).symm
  | scan count addr =>
    rw [handle, Monitor.scanMemory]
    cases h : s.evaluate addr with
    | ok value => exact iff_of_false (Option.some_ne_none _) (s.not_unanswerable_of_evaluate rfl h)
    | error e => exact (s.described_eq_none_iff h).trans (Request.unanswerable_of_marked rfl).symm
  | watches | registers | shutdown | clear | watch | delete | sweep | setRegister | writeMemory =>
    exact iff_of_false (s.handle_ne_none rfl) (Request.not_unanswerable_of_none rfl)

end Session

end MachineMonitor
