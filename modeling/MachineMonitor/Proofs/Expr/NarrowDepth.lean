import MachineMonitor.Proofs.Expr.Counting

/-!
# Evaluating with a depth of 32 bits

Model of `Evaluator::eval_tokens` with the depth of `is_wrapped` and `dominant_operator` kept in 32
bits with sign, as it is there. The evaluator takes a list apart into shorter ones and looks for
parentheses in each of them anew, so the length of the whole list bounds every depth.

Results:
* `dominantOperator32_lt`: the dominant operator is one of the tokens.
* `evalTokens32_eq`: for lists shorter than `2 ^ 31` both evaluators agree.
-/

namespace MachineMonitor.Expr

theorem dominantFrom32_lt {i : Nat} {d : Int32} {best : Option Candidate} {ts : List Token}
    {c : Candidate} (hbest : ∀ b, best = some b → b.1 < i)
    (h : dominantFrom32 i d best ts = some c) : c.1 < i + ts.length := by
  induction ts generalizing i d best with
  | nil => exact hbest c h
  | cons t ts ih =>
    have hnext : ∀ b, nextCandidate i d.toInt best t = some b → b.1 < i + 1 := by
      intro b hb
      rcases nextCandidate_eq_some hb with hb | ⟨hi, -, -⟩
      · exact Nat.lt_succ_of_lt (hbest b hb)
      · exact Nat.lt_succ_of_le (Nat.le_of_eq hi)
    have hlt := ih hnext h
    rw [List.length_cons]
    omega

theorem dominantOperator32_lt {ts : List Token} {i : Nat} (h : dominantOperator32 ts = some i) :
    i < ts.length := by
  obtain ⟨c, hc, rfl⟩ := Option.map_eq_some_iff.mp h
  have hlt := dominantFrom32_lt (fun _ hb => absurd hb (by simp)) hc
  rwa [Nat.zero_add] at hlt

section Target

variable {τ : Type} [Target τ]

/-- The value of a token list, found with a depth of 32 bits. -/
def evalTokens32 (t : τ) (tokens : List Token) : Except EvalError UInt32 :=
  match tokens with
  | [] => .error .malformed
  | [token] => evalOperand t token
  | first :: second :: rest =>
    if isWrapped32 (first :: second :: rest) then evalTokens32 t (second :: rest).dropLast
    else
      match h : dominantOperator32 (first :: second :: rest) with
      | none => .error .malformed
      | some i =>
        have hi : i < (first :: second :: rest).length := dominantOperator32_lt h
        let kind := (first :: second :: rest)[i].kind
        if kind.isUnary then
          if i = 0 then do
            let value ← evalTokens32 t (second :: rest)
            return applyUnary t kind value
          else .error .malformed
        else do
          let left ← evalTokens32 t ((first :: second :: rest).take i)
          let right ← evalTokens32 t ((first :: second :: rest).drop (i + 1))
          applyBinary kind left right
termination_by tokens.length
decreasing_by
  · simp only [List.length_dropLast, List.length_cons]; omega
  · simp
  · simp only [List.length_take]; omega
  · simp only [List.length_drop]; omega

/-- **A depth of 32 bits is enough** to evaluate a list shorter than `2 ^ 31`. -/
theorem evalTokens32_eq (t : τ) {ts : List Token} (h : ts.length < 2 ^ 31) :
    evalTokens32 t ts = evalTokens t ts := by
  fun_induction evalTokens32 t ts with
  | case1 => rw [evalTokens_nil]
  | case2 token => rw [evalTokens_singleton]
  | case3 first second rest hw ih =>
    have hinner : (second :: rest).dropLast.length < 2 ^ 31 := by
      rw [List.length_dropLast]
      exact Nat.lt_of_le_of_lt (Nat.le_trans (Nat.sub_le _ 1) (Nat.le_succ _)) h
    rw [isWrapped32_eq h] at hw
    rw [evalTokens, if_pos hw, ih hinner]
  | case4 first second rest hw hd =>
    rw [isWrapped32_eq h, Bool.not_eq_true] at hw
    rw [dominantOperator32_eq h] at hd
    exact (evalTokens_of_dominant_none t (Nat.le_add_left 2 _) hw hd).symm
  | case5 first second rest _ hd hi kind hunary ih =>
    rw [dominantOperator32_eq h] at hd
    rw [evalTokens_of_dominant t hd hi, if_pos hunary, if_pos rfl, ih (Nat.lt_of_succ_lt h)]
  | case6 first second rest _ i hd hi kind hunary hne =>
    rw [dominantOperator32_eq h] at hd
    rw [evalTokens_of_dominant t hd hi, if_pos hunary, if_neg hne]
  | case7 first second rest _ i hd hi kind hbinary ihl ihr =>
    have hleft := Nat.lt_of_le_of_lt (List.length_take_le' i (first :: second :: rest)) h
    have hright : ((first :: second :: rest).drop (i + 1)).length < 2 ^ 31 := by
      rw [List.length_drop]
      exact Nat.lt_of_le_of_lt (Nat.sub_le _ _) h
    rw [dominantOperator32_eq h] at hd
    rw [evalTokens_of_dominant t hd hi, if_neg hbinary, ihl hleft, ihr hright]

end Target

end MachineMonitor.Expr
