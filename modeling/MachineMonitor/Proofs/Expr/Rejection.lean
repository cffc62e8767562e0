import Mathlib.Data.List.Basic
import MachineMonitor.Machine
import MachineMonitor.Proofs.Expr.Program

/-!
# Where an expression is rejected

Two machines that are given the same text carry out the same program. They do so in lockstep: after
each instruction their stacks have the same length, though not the same words, and each instruction
succeeds on both or fails on both with the same error. The one exception is a division, which fails
on the machine whose divisor is zero. So the place and the reason of any other rejection depend on
the text alone, unless a machine divides by zero before it comes there.

Results:
* `run_together`: one instruction on two machines.
* `lockstep_trial`: one program on two machines.
* `evalTokens_ne_lex`: a token list is never rejected as a text.
* `evaluate_ok_or_divideByZero`, `evaluate_on_two_machines`: one text on two machines.
-/

namespace MachineMonitor.Expr

/-! ## One instruction -/

/-- The machine decides what a register holds, not which registers there are. -/
theorem evalOperand_cases (m m' : Machine) (token : Token) :
    (∃ a b, evalOperand m token = .ok a ∧ evalOperand m' token = .ok b) ∨
      ∃ e, evalOperand m token = .error e ∧ evalOperand m' token = .error e := by
  cases hk : token.kind with
  | register =>
    simp only [evalOperand, hk, Target.readRegister, Machine.readRegister]
    cases Register.ofName? (registerName token.text) with
    | none => exact Or.inr ⟨_, rfl, rfl⟩
    | some r => exact Or.inl ⟨_, _, rfl, rfl⟩
  | _ =>
    have hsame : evalOperand m token = evalOperand m' token := by simp only [evalOperand, hk]
    cases h : evalOperand m' token with
    | ok a => exact Or.inl ⟨a, a, hsame.trans h, rfl⟩
    | error e => exact Or.inr ⟨e, hsame.trans h, rfl⟩

/-- What comes of one instruction on two machines. -/
inductive Together (i : Instruction) :
    Except EvalError (List UInt32) → Except EvalError (List UInt32) → Prop
  | ok {a b : List UInt32} (h : a.length = b.length) : Together i (.ok a) (.ok b)
  | error (e : EvalError) : Together i (.error e) (.error e)
  | left (hi : i = .binary .slash) (b : List UInt32) : Together i (.error .divideByZero) (.ok b)
  | right (hi : i = .binary .slash) (a : List UInt32) : Together i (.ok a) (.error .divideByZero)

theorem applyBinary_together (kind : TokenKind) (a b a' b' : UInt32) {s s' : List UInt32}
    (h : s.length = s'.length) :
    Together (.binary kind) (do return (← applyBinary kind a b) :: s)
      (do return (← applyBinary kind a' b') :: s') := by
  have hlen : ∀ v v' : UInt32, (v :: s).length = (v' :: s').length := fun v v' =>
    congrArg (· + 1) h
  cases kind with
  | slash =>
    rw [applyBinary, applyBinary]
    by_cases hb : b = 0 <;> by_cases hb' : b' = 0
    · rw [if_pos hb, if_pos hb']
      exact .error _
    · rw [if_pos hb, if_neg hb']
      exact .left rfl _
    · rw [if_neg hb, if_pos hb']
      exact .right rfl _
    · rw [if_neg hb, if_neg hb']
      exact .ok (hlen _ _)
  | plus | minus | star | eq | notEq | and | or => exact .ok (hlen _ _)
  | _ => exact .error _

/-- **One instruction on two machines** whose stacks have the same length. -/
theorem run_together (m m' : Machine) (i : Instruction) {s s' : List UInt32}
    (h : s.length = s'.length) : Together i (i.run m s) (i.run m' s') := by
  cases i with
  | operand token =>
    rw [Instruction.run, Instruction.run]
    rcases evalOperand_cases m m' token with ⟨a, b, ha, hb⟩ | ⟨e, he, he'⟩
    · rw [ha, hb]
      exact .ok (congrArg (· + 1) h)
    · rw [he, he']
      exact .error e
  | unary kind =>
    cases s with
    | nil =>
      obtain rfl := List.length_eq_zero_iff.mp h.symm
      exact .error _
    | cons a s =>
      obtain ⟨a', s', rfl⟩ := List.exists_cons_of_length_eq_add_one h.symm
      exact .ok h
  | binary kind =>
    match s, s' with
    | [], [] | [_], [_] => exact .error _
    | b :: a :: s, b' :: a' :: s' =>
      exact applyBinary_together kind a b a' b' (Nat.succ.inj (Nat.succ.inj h))
  | refuse => exact .error _

/-! ## One program -/

/-- What came of a run: the instructions that were carried out, the one that failed included, and
the stack or the error at the end. -/
structure Trial where
  carriedOut : List Instruction
  outcome : Except EvalError (List UInt32)

/-- A trial with one more instruction in front. -/
def Trial.cons (i : Instruction) (x : Trial) : Trial := ⟨i :: x.carriedOut, x.outcome⟩

/-- What comes of a program. -/
def trial {τ : Type} [Target τ] (t : τ) (code : List Instruction) (stack : List UInt32) : Trial :=
  ⟨(steps t code stack).map (·.1), execute t code stack⟩

/-- A division by zero is where a trial ends, and another one goes on. -/
structure DividesEarlier (x y : Trial) : Prop where
  outcome : x.outcome = .error .divideByZero
  carriedOut : ∃ before after, x.carriedOut = before ++ [.binary .slash] ∧
    y.carriedOut = before ++ .binary .slash :: after ∧ (after = [] → ∃ s, y.outcome = .ok s)

theorem DividesEarlier.cons {x y : Trial} (h : DividesEarlier x y) (i : Instruction) :
    DividesEarlier (x.cons i) (y.cons i) where
  outcome := h.outcome
  carriedOut := by
    obtain ⟨before, after, hx, hy, hafter⟩ := h.carriedOut
    exact ⟨i :: before, after, congrArg (i :: ·) hx, congrArg (i :: ·) hy, hafter⟩

/-- Two trials that end at the same instruction, both with a stack or both with the same error, or
of which one ends earlier with a division by zero. -/
inductive Lockstep (x y : Trial) : Prop
  | ok (h : x.carriedOut = y.carriedOut) {a b : List UInt32} (hx : x.outcome = .ok a)
      (hy : y.outcome = .ok b)
  | error (h : x.carriedOut = y.carriedOut) {e : EvalError} (hx : x.outcome = .error e)
      (hy : y.outcome = .error e)
  | left (h : DividesEarlier x y)
  | right (h : DividesEarlier y x)

theorem Lockstep.cons {x y : Trial} (h : Lockstep x y) (i : Instruction) :
    Lockstep (x.cons i) (y.cons i) := by
  cases h with
  | ok h hx hy => exact .ok (congrArg (i :: ·) h) hx hy
  | error h hx hy => exact .error (congrArg (i :: ·) h) hx hy
  | left h => exact .left (h.cons i)
  | right h => exact .right (h.cons i)

section Target

variable {τ : Type} [Target τ] (t : τ) {i : Instruction} {code : List Instruction}
  {stack : List UInt32}

theorem trial_of_ok {stack' : List UInt32} (h : i.run t stack = .ok stack') :
    trial t (i :: code) stack = (trial t code stack').cons i := by
  unfold trial Trial.cons
  rw [steps, execute_cons, h]
  rfl

theorem trial_of_error {e : EvalError} (h : i.run t stack = .error e) :
    trial t (i :: code) stack = ⟨[i], .error e⟩ := by
  unfold trial
  rw [steps, execute_cons, h]
  rfl

/-- Where nothing is left to be carried out, nothing can fail. -/
theorem outcome_of_carriedOut_nil (h : (trial t code stack).carriedOut = []) :
    (trial t code stack).outcome = .ok stack := by
  cases code with
  | nil => rfl
  | cons i code => exact absurd h (by simp [trial, steps])

end Target

/-- A division that fails on one machine and not on the other. -/
theorem dividesEarlier_trial (m m' : Machine) (code : List Instruction) {s s' b : List UInt32}
    (h : (Instruction.binary .slash).run m s = .error .divideByZero)
    (h' : (Instruction.binary .slash).run m' s' = .ok b) :
    DividesEarlier (trial m (.binary .slash :: code) s) (trial m' (.binary .slash :: code) s') := by
  rw [trial_of_error m h, trial_of_ok m' h']
  exact ⟨rfl, [], _, rfl, rfl, fun hnil => ⟨b, outcome_of_carriedOut_nil m' hnil⟩⟩

/-- **One program on two machines** whose stacks have the same length. -/
theorem lockstep_trial (m m' : Machine) (code : List Instruction) {s s' : List UInt32}
    (h : s.length = s'.length) : Lockstep (trial m code s) (trial m' code s') := by
  induction code generalizing s s' with
  | nil => exact .ok rfl rfl rfl
  | cons i code ih =>
    have htogether := run_together m m' i h
    generalize hx : i.run m s = x at htogether
    generalize hy : i.run m' s' = y at htogether
    cases htogether with
    | ok hlen =>
      rw [trial_of_ok m hx, trial_of_ok m' hy]
      exact (ih hlen).cons i
    | error e =>
      rw [trial_of_error m hx, trial_of_error m' hy]
      exact .error rfl rfl rfl
    | left hi b =>
      subst hi
      exact .left (dividesEarlier_trial m m' code hx hy)
    | right hi a =>
      subst hi
      exact .right (dividesEarlier_trial m' m code hy hx)

/-! ## One text -/

section Target

variable {τ : Type} [Target τ] (t : τ)

theorem evalOperand_ne_lex (token : Token) (e : LexError) :
    evalOperand t token ≠ .error (.lex e) := by
  unfold evalOperand
  cases token.kind with
  | number => cases Numeral.word? 10 token.text.toList <;> simp
  | hexNumber =>
    cases Numeral.dropBytes? 2 token.text.toList with
    | none => simp
    | some digits => cases h : Numeral.word? 16 digits <;> simp [h]
  | register => cases h : Target.readRegister t (registerName token.text) <;> simp
  | _ => simp

/-- A token list is never rejected as a text. -/
theorem evalTokens_ne_lex (tokens : List Token) (e : LexError) :
    evalTokens t tokens ≠ .error (.lex e) := by
  intro h
  cases hasFault_of_evalTokens h with
  | @operand token _ _ h => exact evalOperand_ne_lex t token e h

/-- Whether a text can be read is decided without the target. -/
theorem evaluate_eq_lex_iff (limits : Limits) (input : String) (e : LexError) :
    evaluate limits t input = .error (.lex e) ↔ tokenize limits input = .error e := by
  unfold evaluate
  cases tokenize limits input with
  | ok b => exact iff_of_false (evalTokens_ne_lex t _ e) (by simp)
  | error e' => simp

/-- The instructions that a text has carried out, the one that fails included. -/
def carriedOut (limits : Limits) (input : String) : List Instruction :=
  (evaluationSteps t limits input).map (·.1)

end Target

theorem lockstep_evaluate (limits : Limits) (m m' : Machine) (input : String) :
    Lockstep ⟨carriedOut m limits input, do return [← evaluate limits m input]⟩
      ⟨carriedOut m' limits input, do return [← evaluate limits m' input]⟩ := by
  unfold carriedOut evaluationSteps evaluate
  cases tokenize limits input with
  | error e => exact .error rfl rfl rfl
  | ok b =>
    have h := lockstep_trial m m' (program b.markUnary.tokens) (s := []) rfl
    unfold trial at h
    rwa [execute_program, execute_program] at h

/-- A text that has a value on one machine has one on the other, unless it divides by zero there. -/
theorem evaluate_ok_or_divideByZero {limits : Limits} {m : Machine} (m' : Machine) {input : String}
    {a : UInt32} (h : evaluate limits m input = .ok a) :
    (∃ b, evaluate limits m' input = .ok b) ∨ evaluate limits m' input = .error .divideByZero := by
  cases lockstep_evaluate limits m m' input with
  | ok _ _ hy =>
    obtain ⟨b, hb, -⟩ := ok_of_bind hy
    exact Or.inl ⟨b, hb⟩
  | @error _ e hx _ =>
    have he : evaluate limits m input = .error e := eq_of_pushed hx
    exact absurd (h.symm.trans he) (by simp)
  | left hd =>
    have he : evaluate limits m input = .error .divideByZero := eq_of_pushed hd.outcome
    exact absurd (h.symm.trans he) (by simp)
  | right hd => exact Or.inr (eq_of_pushed hd.outcome)

/-- **One text on two machines.** Both have a value for it, or both fail with the same error, or one
of them divides by zero. An error other than a division by zero is the error of the other machine
too, and comes at the same place of the same run, unless the other machine divides by zero earlier:
at an instruction which the first machine carries out as well, with more of them to come. A text
that cannot be read on one machine cannot be read on the other, for the same reason. -/
theorem evaluate_on_two_machines (limits : Limits) (m m' : Machine) (input : String) :
    ((∃ a b, evaluate limits m input = .ok a ∧ evaluate limits m' input = .ok b) ∨
      (∃ e, evaluate limits m input = .error e ∧ evaluate limits m' input = .error e) ∨
      evaluate limits m input = .error .divideByZero ∨
      evaluate limits m' input = .error .divideByZero) ∧
    (∀ e, e ≠ .divideByZero → evaluate limits m input = .error e →
      evaluate limits m' input = .error e ∧ carriedOut m' limits input = carriedOut m limits input ∨
      evaluate limits m' input = .error .divideByZero ∧
        ∃ before next after, carriedOut m' limits input = before ++ [.binary .slash] ∧
          carriedOut m limits input = before ++ .binary .slash :: next :: after) ∧
    ∀ e, evaluate limits m input = .error (.lex e) ↔
      evaluate limits m' input = .error (.lex e) := by
  have hlex (e : LexError) :
      evaluate limits m input = .error (.lex e) ↔ evaluate limits m' input = .error (.lex e) := by
    rw [evaluate_eq_lex_iff, evaluate_eq_lex_iff]
  cases lockstep_evaluate limits m m' input with
  | ok h hx hy =>
    obtain ⟨a, ha, -⟩ := ok_of_bind hx
    obtain ⟨b, hb, -⟩ := ok_of_bind hy
    exact ⟨Or.inl ⟨a, b, ha, hb⟩, fun e _ he => absurd (ha.symm.trans he) (by simp), hlex⟩
  | @error h e hx hy =>
    have hx' : evaluate limits m input = .error e := eq_of_pushed hx
    have hy' : evaluate limits m' input = .error e := eq_of_pushed hy
    refine ⟨Or.inr (Or.inl ⟨_, hx', hy'⟩), fun e _ he => Or.inl ⟨?_, h.symm⟩, hlex⟩
    rw [hy', ← hx', he]
  | left h =>
    have hx : evaluate limits m input = .error .divideByZero := eq_of_pushed h.outcome
    exact ⟨Or.inr (Or.inr (Or.inl hx)),
      fun e hne he => absurd (Except.error.inj (he.symm.trans hx)) hne, hlex⟩
  | right h =>
    have hy : evaluate limits m' input = .error .divideByZero := eq_of_pushed h.outcome
    refine ⟨Or.inr (Or.inr (Or.inr hy)), fun e hne he => Or.inr ⟨hy, ?_⟩, hlex⟩
    obtain ⟨before, after, hbefore, hafter, hend⟩ := h.carriedOut
    cases after with
    | nil =>
      -- the run that divides by something else has not failed yet
      obtain ⟨s, hs⟩ := hend rfl
      obtain ⟨a, ha, -⟩ := ok_of_bind hs
      exact absurd (ha.symm.trans he) (by simp)
    | cons next after => exact ⟨before, next, after, hbefore, hafter⟩

/-- A number that is too large comes after a division, whose divisor is zero on the first machine
only. -/
theorem evaluate_on_two_machines_quotient :
    let m : Machine := {}
    let m' : Machine := { registers := (Vector.replicate 32 0).set 10 1 }
    let input := "1 / $a0 + 4294967296"
    evaluate {} m' input = .error (.numberOutOfRange "4294967296") ∧
      evaluate {} m input = .error .divideByZero ∧
      ∃ before next after, carriedOut m {} input = before ++ [.binary .slash] ∧
        carriedOut m' {} input = before ++ .binary .slash :: next :: after := by
  intro m m' input
  have hm' : evaluate {} m' input = .error (.numberOutOfRange "4294967296") := by decide +kernel
  have hm : evaluate {} m input = .error .divideByZero := by decide +kernel
  obtain ⟨-, herror, -⟩ := evaluate_on_two_machines {} m' m input
  rcases herror _ (by simp) hm' with ⟨h, -⟩ | ⟨-, hearlier⟩
  · exact absurd (h.symm.trans hm) (by simp)
  · exact ⟨hm', hm, hearlier⟩

end MachineMonitor.Expr
