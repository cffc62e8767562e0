import MachineMonitor.Proofs.Expr.Nesting
import MachineMonitor.Proofs.Outcome

/-!
# How the evaluator takes a token list apart

Every token list has one of five shapes, and which one depends on the list alone: a single token, a
balanced list in parentheses, a prefix operator or a binary operator that dominates the list, and
the rest, which is malformed for every target. What the evaluator does with a shape is an equation.

Results:
* `evalTokens_parens`, `evalTokens_unary`, `evalTokens_binary`: the value by shape.
* `exists_shape`: every token list has a shape.
* `shape_induction`: induction over token lists by shape.
* `hasFault_of_evalTokens`: why a token list has no value.
-/

namespace MachineMonitor.Expr

/-! ## Outer operators and parentheses -/

theorem outerFrom_singleton {d : Int} {t : Token} {i p : Nat} :
    OuterFrom d [t] i p ↔ i = 0 ∧ d = 0 ∧ t.kind.precedence = some p := by
  cases i with
  | zero => simp [outerFrom_cons_zero]
  | succ i => simp [outerFrom_cons_succ, not_outerFrom_nil]

/-- Inside a parenthesis no operator is outer. -/
theorem not_outerFrom_of_pos {d : Int} {ts : List Token} {i p : Nat} (hd : 0 < d)
    (h : StaysOpen 0 ts) : ¬ OuterFrom d ts i p := by
  rintro ⟨hz, -⟩
  rw [← List.take_append_drop i ts] at h
  have := (staysOpen_append.mp h).1.depth_nonneg (Int.le_refl 0)
  omega

/-- No operator of a wrapped list is outer, also inside other parentheses. -/
theorem not_outerFrom_parens {d : Int} (hd : 0 ≤ d) {l r : Token} {ts : List Token}
    (hl : l.kind = .lparen) (hr : r.kind = .rparen) (h : Balanced ts) (i p : Nat) :
    ¬ OuterFrom d (l :: (ts ++ [r])) i p := by
  intro ho
  cases i with
  | zero =>
    have := (outerFrom_cons_zero.mp ho).2
    rw [hl] at this
    exact absurd this (by simp [TokenKind.precedence])
  | succ i =>
    rw [outerFrom_cons_succ, nesting_lparen hl, outerFrom_append] at ho
    rcases ho with ho | ⟨j, -, ho⟩
    · exact not_outerFrom_of_pos (by omega) h.1 ho
    · have := (outerFrom_singleton.mp ho).2.2
      rw [hr] at this
      exact absurd this (by simp [TokenKind.precedence])

theorem not_outerAt_parens {l r : Token} {ts : List Token} (hl : l.kind = .lparen)
    (hr : r.kind = .rparen) (h : Balanced ts) (i p : Nat) : ¬ OuterAt (l :: (ts ++ [r])) i p :=
  not_outerFrom_parens (Int.le_refl 0) hl hr h i p

theorem dominantOperator_parens {l r : Token} {ts : List Token} (hl : l.kind = .lparen)
    (hr : r.kind = .rparen) (h : Balanced ts) : dominantOperator (l :: (ts ++ [r])) = none :=
  dominantOperator_eq_none_iff.mpr (not_outerAt_parens hl hr h)

theorem isWrapped_of_dominant {ts : List Token} {i : Nat} (h : dominantOperator ts = some i) :
    isWrapped ts = false := by
  rw [Bool.eq_false_iff]
  intro hw
  obtain ⟨l, us, r, rfl, hl, hr, hus⟩ := isWrapped_iff.mp hw
  rw [dominantOperator_parens hl hr hus] at h
  exact absurd h (by simp)

/-! ## Values by shape -/

section Target

variable {τ : Type} [Target τ] (t : τ)

theorem evalTokens_nil : evalTokens t [] = .error .malformed := by
  rw [evalTokens]

theorem evalTokens_singleton (token : Token) : evalTokens t [token] = evalOperand t token := by
  rw [evalTokens]

/-- An operator is no operand. -/
theorem evalOperand_of_precedence {token : Token} {p : Nat} (h : token.kind.precedence = some p) :
    evalOperand t token = .error .malformed := by
  unfold evalOperand
  cases hk : token.kind <;> first
    | rfl
    | (rw [hk] at h; exact absurd h (by simp [TokenKind.precedence]))

theorem evalTokens_parens {l r : Token} {ts : List Token} (hl : l.kind = .lparen)
    (hr : r.kind = .rparen) (h : Balanced ts) :
    evalTokens t (l :: (ts ++ [r])) = evalTokens t ts := by
  have hw : isWrapped (l :: (ts ++ [r])) = true := isWrapped_iff.mpr ⟨l, ts, r, rfl, hl, hr, h⟩
  obtain ⟨u, us, hus⟩ := List.exists_cons_of_ne_nil (show ts ++ [r] ≠ [] by simp)
  rw [hus] at hw ⊢
  rw [evalTokens, if_pos hw, ← hus, List.dropLast_concat]

/-- The value of a list with a dominant operator, by the index of the operator. -/
theorem evalTokens_of_dominant {first second : Token} {rest : List Token} {i : Nat}
    (hd : dominantOperator (first :: second :: rest) = some i)
    (hi : i < (first :: second :: rest).length) :
    evalTokens t (first :: second :: rest) =
      let kind := (first :: second :: rest)[i].kind
      if kind.isUnary then
        if i = 0 then (return applyUnary t kind (← evalTokens t (second :: rest)))
        else .error .malformed
      else (do
        let left ← evalTokens t ((first :: second :: rest).take i)
        let right ← evalTokens t ((first :: second :: rest).drop (i + 1))
        applyBinary kind left right) := by
  rw [evalTokens, isWrapped_of_dominant hd, if_neg Bool.false_ne_true]
  split
  · rename_i h
    rw [hd] at h
    exact absurd h (by simp)
  · rename_i j h
    rw [hd] at h
    obtain rfl := Option.some.inj h
    rfl

/-- The value of a list with a dominant operator. -/
theorem evalTokens_split {op : Token} {ls rs : List Token} (hlen : ls ≠ [] ∨ rs ≠ [])
    (hd : dominantOperator (ls ++ op :: rs) = some ls.length) :
    evalTokens t (ls ++ op :: rs) =
      if op.kind.isUnary then
        if ls = [] then (return applyUnary t op.kind (← evalTokens t rs))
        else .error .malformed
      else (do applyBinary op.kind (← evalTokens t ls) (← evalTokens t rs)) := by
  have hcons : ∃ a b us, ls ++ op :: rs = a :: b :: us := by
    rcases ls with - | ⟨a, - | ⟨b, ls⟩⟩ <;> rcases rs with - | ⟨c, rs⟩ <;> simp at hlen ⊢
  obtain ⟨a, b, us, heq⟩ := hcons
  have hget : ∀ h : ls.length < (a :: b :: us).length, (a :: b :: us)[ls.length] = op := by
    intro h
    simp [← heq]
  have htake : (a :: b :: us).take ls.length = ls := by rw [← heq, List.take_left']; rfl
  have hdrop : (a :: b :: us).drop (ls.length + 1) = rs := by rw [← heq]; simp
  rw [heq] at hd ⊢
  rw [evalTokens_of_dominant t hd (dominantOperator_lt hd)]
  simp only [hget, htake, hdrop, List.length_eq_zero_iff]
  by_cases hls : ls = []
  · subst hls
    have hrs : b :: us = rs := by simpa using hdrop
    rw [if_pos rfl, if_pos rfl, hrs]
  · rw [if_neg hls, if_neg hls]

theorem evalTokens_unary {op : Token} {ts : List Token} (hu : op.kind.isUnary = true)
    (hd : dominantOperator (op :: ts) = some 0) :
    evalTokens t (op :: ts) = (return applyUnary t op.kind (← evalTokens t ts)) := by
  obtain ⟨p, hp, -⟩ := dominantOperator_eq_some_iff.mp hd
  cases ts with
  | nil =>
    rw [evalTokens_singleton, evalOperand_of_precedence t (outerFrom_cons_zero.mp hp).2,
      evalTokens_nil]
    rfl
  | cons u us =>
    have hsplit : evalTokens t ([] ++ op :: u :: us) = _ :=
      evalTokens_split t (Or.inr (List.cons_ne_nil u us)) hd
    rwa [if_pos hu, if_pos rfl] at hsplit

theorem evalTokens_binary {op : Token} {ls rs : List Token} (hu : op.kind.isUnary = false)
    (hd : dominantOperator (ls ++ op :: rs) = some ls.length) :
    evalTokens t (ls ++ op :: rs) =
      (do applyBinary op.kind (← evalTokens t ls) (← evalTokens t rs)) := by
  by_cases hlen : ls ≠ [] ∨ rs ≠ []
  · rw [evalTokens_split t hlen hd, hu, if_neg Bool.false_ne_true]
  · obtain ⟨hls, hrs⟩ := not_or.mp hlen
    obtain rfl := Decidable.not_not.mp hls
    obtain rfl := Decidable.not_not.mp hrs
    obtain ⟨p, hp, -⟩ := dominantOperator_eq_some_iff.mp hd
    rw [List.nil_append, evalTokens_singleton,
      evalOperand_of_precedence t (outerFrom_singleton.mp hp).2.2, evalTokens_nil]
    rfl

/-- A list of two tokens or more that has no dominant operator and is not wrapped. -/
theorem evalTokens_of_dominant_none {ts : List Token} (hlen : 2 ≤ ts.length)
    (hw : isWrapped ts = false) (hd : dominantOperator ts = none) :
    evalTokens t ts = .error .malformed := by
  rcases ts with - | ⟨a, - | ⟨b, us⟩⟩
  · exact absurd hlen (by simp)
  · exact absurd hlen (by simp)
  · rw [evalTokens, hw, if_neg Bool.false_ne_true]
    split
    · rfl
    · rename_i i h
      rw [hd] at h
      exact absurd h (by simp)

end Target

/-! ## Shapes -/

/-- How the evaluator takes a token list apart. -/
inductive Shape : List Token → Prop
  | operand (token : Token) : Shape [token]
  | parens {l r : Token} {ts : List Token} (hl : l.kind = .lparen) (hr : r.kind = .rparen)
      (h : Balanced ts) : Shape (l :: (ts ++ [r]))
  | unary {op : Token} {ts : List Token} (hu : op.kind.isUnary = true)
      (hd : dominantOperator (op :: ts) = some 0) : Shape (op :: ts)
  | binary {op : Token} {ls rs : List Token} (hu : op.kind.isUnary = false)
      (hd : dominantOperator (ls ++ op :: rs) = some ls.length) : Shape (ls ++ op :: rs)
  | malformed {ts : List Token}
      (h : ∀ {τ : Type} [Target τ] (t : τ), evalTokens t ts = .error .malformed) : Shape ts

theorem exists_split {ts : List Token} {i : Nat} (hi : i < ts.length) :
    ∃ ls op rs, ts = ls ++ op :: rs ∧ i = ls.length := by
  refine ⟨ts.take i, ts[i], ts.drop (i + 1), ?_, ?_⟩
  · rw [List.getElem_cons_drop, List.take_append_drop]
  · rw [List.length_take, Nat.min_eq_left (Nat.le_of_lt hi)]

/-- A list is split at its dominant operator. -/
theorem exists_split_of_dominant {ts : List Token} {i : Nat} (h : dominantOperator ts = some i) :
    ∃ ls op rs, ts = ls ++ op :: rs ∧ i = ls.length :=
  exists_split (dominantOperator_lt h)

/-- **Every token list has a shape.** -/
theorem exists_shape (ts : List Token) : Shape ts := by
  rcases ts with - | ⟨a, - | ⟨b, us⟩⟩
  · exact .malformed evalTokens_nil
  · exact .operand a
  · have hlen : 2 ≤ (a :: b :: us).length := by simp
    generalize a :: b :: us = ts at hlen
    cases hw : isWrapped ts with
    | true =>
      obtain ⟨l, us, r, rfl, hl, hr, hus⟩ := isWrapped_iff.mp hw
      exact .parens hl hr hus
    | false =>
      cases hd : dominantOperator ts with
      | none => exact .malformed fun t => evalTokens_of_dominant_none t hlen hw hd
      | some i =>
        obtain ⟨ls, op, rs, rfl, rfl⟩ := exists_split_of_dominant hd
        cases hu : op.kind.isUnary with
        | false => exact .binary hu hd
        | true =>
          by_cases hls : ls = []
          · subst hls
            exact .unary hu hd
          · refine .malformed fun t => ?_
            rw [evalTokens_split t (Or.inl hls) hd, if_pos hu, if_neg hls]

/-- **Induction along the evaluator**: what holds of a list if it holds of the parts that the
evaluator splits it into holds of every list. -/
@[elab_as_elim]
theorem shape_induction {motive : List Token → Prop} (operand : ∀ token, motive [token])
    (parens : ∀ (l r : Token) (ts : List Token), l.kind = .lparen → r.kind = .rparen →
      Balanced ts → motive ts → motive (l :: (ts ++ [r])))
    (unary : ∀ (op : Token) (ts : List Token), op.kind.isUnary = true →
      dominantOperator (op :: ts) = some 0 → motive ts → motive (op :: ts))
    (binary : ∀ (op : Token) (ls rs : List Token), op.kind.isUnary = false →
      dominantOperator (ls ++ op :: rs) = some ls.length → motive ls → motive rs →
      motive (ls ++ op :: rs))
    (malformed : ∀ ts : List Token,
      (∀ {τ : Type} [Target τ] (t : τ), evalTokens t ts = .error .malformed) → motive ts)
    (ts : List Token) : motive ts := by
  induction hn : ts.length using Nat.strongRecOn generalizing ts with
  | ind n ih =>
    subst hn
    cases exists_shape ts with
    | operand token => exact operand token
    | @parens l r ts hl hr h =>
      have hlt : ts.length < (l :: (ts ++ [r])).length := by
        rw [List.length_cons, List.length_append]
        omega
      exact parens l r ts hl hr h (ih _ hlt ts rfl)
    | @unary op ts hu hd =>
      have hlt : ts.length < (op :: ts).length := Nat.lt_succ_self _
      exact unary op ts hu hd (ih _ hlt ts rfl)
    | @binary op ls rs hu hd =>
      have hlen : (ls ++ op :: rs).length = ls.length + (rs.length + 1) := List.length_append
      exact binary op ls rs hu hd (ih _ (by omega) ls rfl) (ih _ (by omega) rs rfl)
    | malformed h => exact malformed ts h

/-! ## Failures -/

section Failures

variable {τ : Type} [Target τ] {t : τ}

/-- Reasons for a token list to have no value: it is malformed, a divisor is zero, or one of its
tokens has no value by itself. -/
inductive HasFault (t : τ) (ts : List Token) : EvalError → Prop
  | malformed : HasFault t ts .malformed
  | divideByZero : HasFault t ts .divideByZero
  | operand {token : Token} {e : EvalError} (hmem : token ∈ ts)
      (h : evalOperand t token = .error e) : HasFault t ts e

theorem HasFault.mono {ts us : List Token} {e : EvalError} (h : HasFault t ts e) (hsub : ts ⊆ us) :
    HasFault t us e := by
  cases h with
  | malformed => exact .malformed
  | divideByZero => exact .divideByZero
  | operand hmem h => exact .operand (hsub hmem) h

theorem hasFault_of_applyBinary {ts : List Token} {kind : TokenKind} {a b : UInt32} {e : EvalError}
    (h : applyBinary kind a b = .error e) : HasFault t ts e := by
  cases kind with
  | plus | minus | star | eq | notEq | and | or => exact absurd h (by simp [applyBinary])
  | slash =>
    rw [applyBinary] at h
    by_cases hb : b = 0
    · rw [if_pos hb] at h
      obtain rfl := Except.error.inj h
      exact .divideByZero
    · rw [if_neg hb] at h
      exact absurd h (by simp)
  | _ =>
    obtain rfl := Except.error.inj h
    exact .malformed

/-- **Why a token list has no value.** -/
theorem hasFault_of_evalTokens {ts : List Token} {e : EvalError} (h : evalTokens t ts = .error e) :
    HasFault t ts e := by
  induction ts using shape_induction generalizing e with
  | operand token =>
    rw [evalTokens_singleton] at h
    exact .operand (List.mem_singleton_self token) h
  | parens l r ts hl hr hts ih =>
    rw [evalTokens_parens t hl hr hts] at h
    exact (ih h).mono fun token hmem => List.mem_cons_of_mem l (List.mem_append_left [r] hmem)
  | unary op ts hu hd ih =>
    rw [evalTokens_unary t hu hd] at h
    rcases error_of_bind h with h | ⟨a, -, h⟩
    · exact (ih h).mono (List.subset_cons_self op ts)
    · exact absurd h (by simp [pure, Except.pure])
  | binary op ls rs hu hd ihl ihr =>
    rw [evalTokens_binary t hu hd] at h
    rcases error_of_bind h with h | ⟨a, -, h⟩
    · exact (ihl h).mono (List.subset_append_left ls (op :: rs))
    · rcases error_of_bind h with h | ⟨b, -, h⟩
      · exact (ihr h).mono fun token hmem =>
          List.mem_append_right ls (List.mem_cons_of_mem op hmem)
      · exact hasFault_of_applyBinary h
  | malformed ts hm =>
    rw [hm t] at h
    obtain rfl := Except.error.inj h
    exact .malformed

end Failures

end MachineMonitor.Expr
