import MachineMonitor.Machine
import MachineMonitor.Proofs.Expr.Grammar
import MachineMonitor.Proofs.Expr.NarrowDepth
import MachineMonitor.Proofs.Outcome

/-!
# The value of a token list is the denotation of its tree

The evaluator builds no tree, but it splits a list just where the grammar does. A list that derives
a tree has the value, or the first error, that the tree denotes; a list that has a value derives a
tree.

Results:
* `evalTokens_of_derives`: what derives a tree evaluates to its denotation.
* `exists_parses_of_evalTokens`: what evaluates to a word derives a tree.
* `evalTokens_eq_denote`: both together, for every token list.
-/

namespace MachineMonitor.Expr

/-! ## Operators -/

theorem sub_eq_ofNat (a b : UInt32) : a - b = UInt32.ofNat (UInt32.size + a.toNat - b.toNat) := by
  have hb : b.toNat ≤ UInt32.size := Nat.le_of_lt b.toNat_lt
  have hsum : UInt32.size - b.toNat + a.toNat = UInt32.size + a.toNat - b.toNat := by omega
  apply UInt32.toNat_inj.mp
  rw [← hsum]
  exact (UInt32.toNat_sub a b).trans UInt32.toNat_ofNat'.symm

theorem neg_eq_ofNat (a : UInt32) : -a = UInt32.ofNat (UInt32.size - a.toNat) := by
  apply UInt32.toNat_inj.mp
  exact (UInt32.toNat_neg a).trans UInt32.toNat_ofNat'.symm

theorem applyBinary_kind (op : BinaryOp) (a b : UInt32) :
    applyBinary op.kind a b = op.denote a b := by
  cases op with
  | or =>
    by_cases ha : a = 0 <;> by_cases hb : b = 0 <;>
      simp [applyBinary, BinaryOp.kind, BinaryOp.denote, truth, ha, hb]
  | and =>
    by_cases ha : a = 0 <;> by_cases hb : b = 0 <;>
      simp [applyBinary, BinaryOp.kind, BinaryOp.denote, truth, ha, hb]
  | eq => simp [applyBinary, BinaryOp.kind, BinaryOp.denote, truth]
  | notEq => simp [applyBinary, BinaryOp.kind, BinaryOp.denote, truth]
  | add =>
    rw [BinaryOp.denote, UInt32.ofNat_add, UInt32.ofNat_toNat, UInt32.ofNat_toNat]
    rfl
  | sub =>
    rw [BinaryOp.denote, ← sub_eq_ofNat]
    rfl
  | mul =>
    rw [BinaryOp.denote, UInt32.ofNat_mul, UInt32.ofNat_toNat, UInt32.ofNat_toNat]
    rfl
  | div =>
    rw [BinaryOp.denote, ← UInt32.toNat_div, UInt32.ofNat_toNat]
    rfl

section Target

variable {τ : Type} [Target τ] (t : τ)

theorem applyUnary_kind (op : PrefixOp) (a : UInt32) :
    applyUnary t op.kind a = op.denote (Target.readMemory t · 4) a := by
  cases op with
  | negate =>
    rw [PrefixOp.denote, ← neg_eq_ofNat]
    rfl
  | dereference => rfl

/-- **What derives a tree evaluates to its denotation**, if the operands do. -/
theorem evalTokens_of_derives {α : Type} {leaf : Token → α → Prop}
    {operand : α → Except EvalError UInt32}
    (hleaf : ∀ token a, leaf token a → token.kind.isOperand = true)
    (hoperand : ∀ token a, leaf token a → evalOperand t token = operand a)
    {n : Nat} {ts : List Token} {e : Tree α} (h : Derives leaf n ts e) :
    evalTokens t ts = e.denote operand (Target.readMemory t · 4) := by
  induction h with
  | operand h =>
    rw [evalTokens_singleton, hoperand _ _ h]
    rfl
  | parens hl h hr ih => rw [evalTokens_parens t hl hr (h.balanced hleaf), ih]
  | @unary token ts op e ht h ih =>
    have hu : token.kind.isUnary = true := ht ▸ op.isUnary_kind
    rw [evalTokens_unary t hu (h.dominant_unary hleaf ht), ih, Tree.denote]
    simp only [ht, applyUnary_kind]
  | @binary n token ls rs op left right hn hl ht hr ihl ihr =>
    have hu : token.kind.isUnary = false := ht ▸ op.isUnary_kind
    rw [evalTokens_binary t hu (hl.dominant_binary hleaf hn ht hr), ihl, ihr, Tree.denote]
    simp only [ht, applyBinary_kind]
  | tighter _ ih => exact ih

end Target

/-! ## Parses -/

/-- A token stands for itself as an operand. -/
def IsOperand (token a : Token) : Prop := token.kind.isOperand = true ∧ a = token

/-- A token list derives a tree whose operands are its number and register tokens. -/
def Parses (ts : List Token) (e : Tree Token) : Prop := Derives IsOperand 1 ts e

theorem isOperand_of_evalOperand {τ : Type} [Target τ] {t : τ} {token : Token} {v : UInt32}
    (h : evalOperand t token = .ok v) : token.kind.isOperand = true := by
  unfold evalOperand at h
  split at h
  · rename_i hk
    rw [hk]
    rfl
  · rename_i hk
    rw [hk]
    rfl
  · rename_i hk
    rw [hk]
    rfl
  · exact absurd h (by simp)

/-- What parses without an operator looser than `k` derives its tree at level `k`. -/
theorem Parses.lift {k : Nat} {ts : List Token} {e : Tree Token} (h : Parses ts e)
    (hk : k ≤ primaryLevel) (ho : ∀ i p, OuterAt ts i p → k ≤ p) : Derives IsOperand k ts e :=
  Derives.lift (fun _ _ hl => hl.1) h hk ho

/-- A prefix operator that dominates may stand before what parses. -/
theorem Parses.unary {op : Token} {ts : List Token} {e : Tree Token} (h : Parses ts e)
    (hu : op.kind.isUnary = true) (hd : dominantOperator (op :: ts) = some 0) :
    ∃ e', Parses (op :: ts) e' := by
  obtain ⟨p, hp, hall⟩ := dominantOperator_eq_some_iff.mp hd
  have hop := (outerFrom_cons_zero.mp hp).2
  obtain rfl := (isUnary_iff hop).mp hu
  obtain ⟨o, ho⟩ := exists_prefixOp hu
  refine ⟨.unary o e, (Derives.unary ho (h.lift (by decide) fun i q hiq => ?_)).mono (by decide)⟩
  -- what is outer after the operator is outer in the whole list
  have hout : OuterAt (op :: ts) (i + 1) q := by
    rw [OuterAt, outerFrom_cons_succ, nesting_of_precedence hop]
    exact hiq
  rcases hall (i + 1) q hout with hlt | ⟨heq, -⟩
  · exact Nat.le_of_lt hlt
  · exact Nat.le_of_eq heq

/-- A binary operator that dominates may stand between what parses. -/
theorem Parses.binary {op : Token} {ls rs : List Token} {left right : Tree Token}
    (hl : Parses ls left) (hr : Parses rs right) (hu : op.kind.isUnary = false)
    (hd : dominantOperator (ls ++ op :: rs) = some ls.length) :
    ∃ e, Parses (ls ++ op :: rs) e := by
  obtain ⟨p, hp, hall⟩ := dominantOperator_eq_some_iff.mp hd
  obtain ⟨hdepth, hop⟩ := outerAt_length_iff.mp hp
  obtain ⟨o, ho, rfl⟩ := exists_binaryOp hop hu
  have hlt := o.level_lt
  have hleft : Derives IsOperand o.level ls left := by
    refine hl.lift (Nat.le_succ_of_le (Nat.le_of_lt hlt)) fun i q hiq => ?_
    rcases hall i q (outerFrom_append_left hiq) with hlt | ⟨heq, -⟩
    · exact Nat.le_of_lt hlt
    · exact Nat.le_of_eq heq
  have hright : Derives IsOperand (o.level + 1) rs right := by
    refine hr.lift (Nat.succ_le_succ (Nat.le_of_lt hlt)) fun i q hiq => ?_
    have hout : OuterAt (ls ++ op :: rs) (ls.length + (i + 1)) q := by
      rw [OuterAt, outerFrom_append_right, outerFrom_cons_succ, nesting_of_precedence hop,
        hdepth]
      exact hiq
    rcases hall _ q hout with hlt' | ⟨-, hif⟩
    · exact hlt'
    · rw [if_neg (Nat.ne_of_lt hlt)] at hif
      omega
  exact ⟨.binary o left right, (Derives.binary rfl hleft ho hright).mono o.level_pos⟩

section Target

variable {τ : Type} [Target τ] {t : τ}

/-- **What evaluates to a word derives a tree.** -/
theorem exists_parses_of_evalTokens {ts : List Token} {v : UInt32}
    (h : evalTokens t ts = .ok v) : ∃ e, Parses ts e := by
  induction ts using shape_induction generalizing v with
  | operand token =>
    rw [evalTokens_singleton] at h
    exact ⟨.operand token, (Derives.operand ⟨isOperand_of_evalOperand h, rfl⟩).mono (by decide)⟩
  | parens l r ts hl hr hts ih =>
    rw [evalTokens_parens t hl hr hts] at h
    obtain ⟨e, he⟩ := ih h
    exact ⟨e, (Derives.parens hl he hr).mono (by decide)⟩
  | unary op ts hu hd ih =>
    rw [evalTokens_unary t hu hd] at h
    obtain ⟨w, hw, -⟩ := ok_of_bind h
    obtain ⟨e, he⟩ := ih hw
    exact he.unary hu hd
  | binary op ls rs hu hd ihl ihr =>
    rw [evalTokens_binary t hu hd] at h
    obtain ⟨a, ha, h⟩ := ok_of_bind h
    obtain ⟨b, hb, -⟩ := ok_of_bind h
    obtain ⟨left, hl⟩ := ihl ha
    obtain ⟨right, hr⟩ := ihr hb
    exact hl.binary hr hu hd
  | malformed ts hm =>
    rw [hm t] at h
    exact absurd h (by simp)

end Target

/-- **The evaluator computes denotations.** A list that derives a tree evaluates to what the tree
denotes, be it a word or the first error; a list that derives none evaluates to an error. For lists
shorter than `2 ^ 31` a depth of 32 bits leads to the same. -/
theorem evalTokens_eq_denote {τ : Type} [Target τ] (t : τ) (tokens : List Token) :
    (∀ e, Parses tokens e →
      evalTokens t tokens = e.denote (evalOperand t) (Target.readMemory t · 4)) ∧
    ((∀ e, ¬ Parses tokens e) → ∃ err, evalTokens t tokens = .error err) ∧
    (tokens.length < 2 ^ 31 → evalTokens32 t tokens = evalTokens t tokens) := by
  refine ⟨?_, ?_, evalTokens32_eq t⟩
  · intro e h
    refine evalTokens_of_derives t (fun _ _ hl => hl.1) (fun token a hl => ?_) h
    rw [hl.2]
  · intro h
    cases hv : evalTokens t tokens with
    | error err => exact ⟨err, rfl⟩
    | ok v =>
      obtain ⟨e, he⟩ := exists_parses_of_evalTokens hv
      exact absurd he (h e)

/-- `-3 + 5` derives a tree and has its value, with a depth of 32 bits too, and `) 1 (` derives none
and has no value, though its depth ends at zero. -/
theorem evalTokens_eq_denote_machine :
    let sum : List Token := [⟨.negate, "-"⟩, ⟨.number, "3"⟩, ⟨.plus, "+"⟩, ⟨.number, "5"⟩]
    evalTokens ({} : Machine) sum = .ok 2 ∧ evalTokens32 ({} : Machine) sum = .ok 2 ∧
      ∃ err, evalTokens ({} : Machine) [⟨.rparen, ")"⟩, ⟨.number, "1"⟩, ⟨.lparen, "("⟩] =
        .error err := by
  intro sum
  have hsum : evalTokens ({} : Machine) sum = .ok 2 := by
    refine ((evalTokens_eq_denote _ _).1
      (.binary .add (.unary .negate (.operand ⟨.number, "3"⟩)) (.operand ⟨.number, "5"⟩)) ?_).trans
      rfl
    have hleft : Derives IsOperand BinaryOp.add.level [⟨.negate, "-"⟩, ⟨.number, "3"⟩]
        (.unary .negate (.operand ⟨.number, "3"⟩)) :=
      (Derives.unary rfl ((Derives.operand ⟨rfl, rfl⟩).mono (by decide))).mono (by decide)
    have hright : Derives IsOperand (BinaryOp.add.level + 1) [⟨.number, "5"⟩]
        (.operand ⟨.number, "5"⟩) := (Derives.operand ⟨rfl, rfl⟩).mono (by decide)
    exact (Derives.binary rfl hleft rfl hright).mono (by decide)
  refine ⟨hsum, ((evalTokens_eq_denote _ sum).2.2 (by decide)).trans hsum, ?_⟩
  refine (evalTokens_eq_denote _ _).2.1 fun e h => ?_
  have hbal := isBalancedFrom_zero_iff.mpr (Derives.balanced (fun _ _ hl => hl.1) h)
  exact absurd hbal (by decide)

end MachineMonitor.Expr
