import MachineMonitor.Proofs.Expr.Shape

/-!
# The program of a token list

What the evaluator does with a token list is settled before it looks at its target. The list alone
says which operands are looked at, which operators are applied to their values and in which order,
and where it turns out that the list is malformed. This is a program for a stack of words; the
target only decides which words there are, and whether one of them is a zero divisor.

Results:
* `execute_program`: the program of a list pushes the value of the list.
* `execute_congr`: targets that do the same in every step of a run.
* `exists_value_of_mem_steps`: what a prefix operator is applied to.
* `mem_of_operand_mem_program`: a program looks at tokens of its list only.
-/

namespace MachineMonitor.Expr

/-- What the evaluator does at one moment: it looks at a single token, applies an operator, or finds
that the list is malformed. -/
inductive Instruction where
  | operand (token : Token)
  | unary (kind : TokenKind)
  | binary (kind : TokenKind)
  | refuse
  deriving DecidableEq, Repr

/-- The instructions of a token list, in the order in which the evaluator comes to them: the left
side of an operator before the right one, and the operator last. -/
def program (tokens : List Token) : List Instruction :=
  match tokens with
  | [] => [.refuse]
  | [token] => [.operand token]
  | first :: second :: rest =>
    if isWrapped (first :: second :: rest) then program (second :: rest).dropLast
    else
      match h : dominantOperator (first :: second :: rest) with
      | none => [.refuse]
      | some i =>
        have hi : i < (first :: second :: rest).length := dominantOperator_lt h
        let kind := (first :: second :: rest)[i].kind
        if kind.isUnary then
          if i = 0 then program (second :: rest) ++ [.unary kind] else [.refuse]
        else
          program ((first :: second :: rest).take i) ++
            program ((first :: second :: rest).drop (i + 1)) ++ [.binary kind]
termination_by tokens.length
decreasing_by
  · simp only [List.length_dropLast, List.length_cons]; omega
  · simp
  · simp only [List.length_take]; omega
  · simp only [List.length_drop]; omega

/-- A program looks at tokens of its list only. -/
theorem mem_of_operand_mem_program {tokens : List Token} {token : Token}
    (h : .operand token ∈ program tokens) : token ∈ tokens := by
  fun_induction program tokens with
  | case1 => simp at h
  | case2 => simpa using h
  | case3 first second rest hw ih =>
    exact List.mem_cons_of_mem first (List.dropLast_subset _ (ih h))
  | case4 => simp at h
  | case5 first second rest hw hd hi kind hu ih =>
    exact List.mem_cons_of_mem first (ih (by simpa using h))
  | case6 => simp at h
  | case7 first second rest hw i hd hi kind hu ihl ihr =>
    simp only [List.mem_append, List.mem_singleton, reduceCtorEq, or_false] at h
    exact h.elim (fun hl => List.take_subset _ _ (ihl hl)) fun hr => List.drop_subset _ _ (ihr hr)

section Target

variable {τ : Type} [Target τ] (t : τ)

/-- Carries out an instruction on a stack of words, whose top comes first. -/
def Instruction.run : Instruction → List UInt32 → Except EvalError (List UInt32)
  | .operand token, stack => do return (← evalOperand t token) :: stack
  | .unary kind, a :: stack => return applyUnary t kind a :: stack
  | .binary kind, b :: a :: stack => do return (← applyBinary kind a b) :: stack
  | _, _ => .error .malformed

/-- Carries out instructions one after the other, up to the first that fails. -/
def execute (code : List Instruction) (stack : List UInt32) : Except EvalError (List UInt32) :=
  code.foldlM (fun stack i => i.run t stack) stack

theorem execute_cons (i : Instruction) (code : List Instruction) (stack : List UInt32) :
    execute t (i :: code) stack = i.run t stack >>= execute t code := List.foldlM_cons

theorem execute_append (code code' : List Instruction) (stack : List UInt32) :
    execute t (code ++ code') stack = execute t code stack >>= execute t code' :=
  List.foldlM_append

theorem execute_singleton (i : Instruction) (stack : List UInt32) :
    execute t [i] stack = i.run t stack := by
  rw [execute_cons]
  cases i.run t stack <;> rfl

/-- **The program of a list pushes the value of the list**, or fails as the list does. -/
theorem execute_program (tokens : List Token) (stack : List UInt32) :
    execute t (program tokens) stack = (do return (← evalTokens t tokens) :: stack) := by
  fun_induction program tokens generalizing stack with
  | case1 => rw [execute_singleton, evalTokens_nil]; rfl
  | case2 token => rw [execute_singleton, evalTokens_singleton]; rfl
  | case3 first second rest hw ih => rw [ih, evalTokens, if_pos hw]
  | case4 first second rest hw hd =>
    rw [execute_singleton, evalTokens_of_dominant_none t (by simp) (Bool.eq_false_iff.mpr hw) hd]
    rfl
  | case5 first second rest hw hd hi kind hu ih =>
    rw [execute_append, ih, evalTokens_of_dominant t hd hi, if_pos hu, if_pos rfl]
    cases evalTokens t (second :: rest) <;> rfl
  | case6 first second rest hw i hd hi kind hu hne =>
    rw [execute_singleton, evalTokens_of_dominant t hd hi, if_pos hu, if_neg hne]
    rfl
  | case7 first second rest hw i hd hi kind hu ihl ihr =>
    rw [List.append_assoc, execute_append, ihl, evalTokens_of_dominant t hd hi, if_neg hu]
    cases evalTokens t ((first :: second :: rest).take i) with
    | error e => rfl
    | ok left =>
      show execute t (_ ++ _) (left :: stack) = _
      rw [execute_append, ihr]
      cases evalTokens t ((first :: second :: rest).drop (i + 1)) with
      | error e => rfl
      | ok right =>
        show execute t [.binary kind] (right :: left :: stack) = _
        rw [execute_singleton]
        rfl

/-- Values that are pushed alike are alike. -/
theorem eq_of_pushed {x y : Except EvalError UInt32}
    (h : (do return [← x] : Except EvalError (List UInt32)) = do return [← y]) : x = y := by
  cases x with
  | ok a =>
    cases y with
    | ok b => exact congrArg Except.ok (List.singleton_inj.mp (Except.ok.inj h))
    | error e => exact absurd h (by simp [bind, Except.bind, pure, Except.pure])
  | error e =>
    cases y with
    | ok b => exact absurd h (by simp [bind, Except.bind, pure, Except.pure])
    | error e' => exact congrArg Except.error (Except.error.inj h)

/-! ## Runs -/

/-- The instructions that are carried out, the one that fails included, each with the stack that it
finds. -/
def steps : List Instruction → List UInt32 → List (Instruction × List UInt32)
  | [], _ => []
  | i :: code, stack =>
    (i, stack) ::
      match i.run t stack with
      | .ok stack' => steps code stack'
      | .error _ => []

theorem steps_append (code code' : List Instruction) (stack : List UInt32) :
    steps t (code ++ code') stack =
      steps t code stack ++
        match execute t code stack with
        | .ok stack' => steps t code' stack'
        | .error _ => [] := by
  induction code generalizing stack with
  | nil => rfl
  | cons i code ih =>
    rw [List.cons_append, steps, steps, execute_cons, List.cons_append]
    cases i.run t stack with
    | error e => rfl
    | ok stack' => exact congrArg (_ :: ·) (ih stack')

/-- What is carried out after a list is carried out on its value. -/
theorem mem_steps_program_append {tokens : List Token} {code : List Instruction}
    {stack : List UInt32} {step : Instruction × List UInt32}
    (h : step ∈ steps t (program tokens ++ code) stack) :
    step ∈ steps t (program tokens) stack ∨
      ∃ value, evalTokens t tokens = .ok value ∧ step ∈ steps t code (value :: stack) := by
  rw [steps_append, execute_program, List.mem_append] at h
  refine h.imp_right fun hlater => ?_
  cases hvalue : evalTokens t tokens with
  | ok value =>
    rw [hvalue] at hlater
    exact ⟨value, rfl, hlater⟩
  | error e =>
    rw [hvalue] at hlater
    exact absurd hlater List.not_mem_nil

theorem mem_steps_singleton {i : Instruction} {stack : List UInt32}
    {step : Instruction × List UInt32} (h : step ∈ steps t [i] stack) : step = (i, stack) := by
  rw [steps] at h
  cases hrun : i.run t stack <;> simpa [hrun, steps] using h

/-- **A prefix operator is applied to the value of a part** of the list. -/
theorem exists_value_of_mem_steps {tokens : List Token} {op : TokenKind}
    {stack stack' : List UInt32} (h : (.unary op, stack') ∈ steps t (program tokens) stack) :
    ∃ part value, part <:+: tokens ∧ evalTokens t part = .ok value ∧
      stack'.head? = some value := by
  revert h
  fun_induction program tokens generalizing stack with
  | case1 | case2 | case4 | case6 =>
    intro h
    exact absurd (mem_steps_singleton t h) (by simp)
  | case3 first second rest hw ih =>
    intro h
    obtain ⟨part, value, hpart, hvalue⟩ := ih h
    have hinner : (second :: rest).dropLast <:+: first :: second :: rest :=
      (List.dropLast_prefix _).isInfix.trans (List.suffix_cons first _).isInfix
    exact ⟨part, value, hpart.trans hinner, hvalue⟩
  | case5 first second rest hw hd hi kind hu =>
    rename_i ih
    intro h
    have hinner : second :: rest <:+: first :: second :: rest := (List.suffix_cons first _).isInfix
    rcases mem_steps_program_append t h with h | ⟨value, hvalue, h⟩
    · obtain ⟨part, value, hpart, hvalue⟩ := ih h
      exact ⟨part, value, hpart.trans hinner, hvalue⟩
    · obtain ⟨-, rfl⟩ := Prod.mk.inj (mem_steps_singleton t h)
      exact ⟨second :: rest, value, hinner, hvalue, rfl⟩
  | case7 first second rest hw i hd hi kind hu =>
    rename_i ihl ihr
    intro h
    rw [List.append_assoc] at h
    rcases mem_steps_program_append t h with h | ⟨left, -, h⟩
    · obtain ⟨part, value, hpart, hvalue⟩ := ihl h
      exact ⟨part, value, hpart.trans (List.take_prefix i _).isInfix, hvalue⟩
    rcases mem_steps_program_append t h with h | ⟨right, -, h⟩
    · obtain ⟨part, value, hpart, hvalue⟩ := ihr h
      exact ⟨part, value, hpart.trans (List.drop_suffix (i + 1) _).isInfix, hvalue⟩
    · exact absurd (mem_steps_singleton t h) (by simp)

/-- What is carried out is the beginning of the program. -/
theorem steps_prefix_code (code : List Instruction) (stack : List UInt32) :
    (steps t code stack).map (·.1) <+: code := by
  induction code generalizing stack with
  | nil => exact List.prefix_rfl
  | cons i code ih =>
    rw [steps, List.map_cons, List.prefix_cons_inj]
    cases i.run t stack with
    | error e => exact List.nil_prefix
    | ok stack' => exact ih stack'

/-- **Targets that do the same in every step of a run** of one of them have the same run. -/
theorem execute_congr {σ : Type} [Target σ] {u : σ} {code : List Instruction} {stack : List UInt32}
    (h : ∀ step ∈ steps t code stack, step.1.run u step.2 = step.1.run t step.2) :
    execute u code stack = execute t code stack := by
  induction code generalizing stack with
  | nil => rfl
  | cons i code ih =>
    rw [steps, List.forall_mem_cons] at h
    obtain ⟨hi, hrest⟩ := h
    rw [execute_cons, execute_cons, hi]
    cases hrun : i.run t stack with
    | error e => rfl
    | ok stack' =>
      rw [hrun] at hrest
      exact ih hrest

/-! ## Texts -/

/-- The steps of evaluating a text; there are none if it cannot be split into tokens. -/
def evaluationSteps (limits : Limits) (input : String) : List (Instruction × List UInt32) :=
  match tokenize limits input with
  | .ok b => steps t (program b.markUnary.tokens) []
  | .error _ => []

end Target

end MachineMonitor.Expr
