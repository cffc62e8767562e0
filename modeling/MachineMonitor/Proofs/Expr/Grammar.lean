import MachineMonitor.Proofs.Expr.Shape

/-!
# The grammar of expressions

Expression trees, what they denote, and which token lists derive them. The grammar is stratified:
level 1 binds loosest and level 7 tightest.

* Level 7: an operand, or an expression of level 1 in parentheses.
* Level 6: a prefix operator before an expression of level 6.
* Levels 5 to 1: `*` and `/`; `+` and `-`; `==` and `!=`; `&&`; `||`. The left side has the level
  of the operator and the right side the next tighter one, so chains group to the left.
* Every level contains the next tighter one.

Results:
* `Derives.balanced`, `Derives.le_of_outerAt`: what derives a tree is balanced and, at level `n`,
  has no outer operator looser than `n`.
* `Derives.lift`: an expression belongs to every level that is no tighter than its outer operators.
* `Derives.dominant_unary`, `Derives.dominant_binary`: the operator at the root is dominant.
-/

namespace MachineMonitor.Expr

/-! ## Trees -/

/-- The operators that stand before one operand. -/
inductive PrefixOp where
  | negate | dereference
  deriving DecidableEq, Repr

/-- The operators that stand between two operands. -/
inductive BinaryOp where
  | or | and | eq | notEq | add | sub | mul | div
  deriving DecidableEq, Repr

/-- Expression trees over operands of some type. Parentheses leave no trace in them. -/
inductive Tree (α : Type) where
  | operand (a : α)
  | unary (op : PrefixOp) (e : Tree α)
  | binary (op : BinaryOp) (left right : Tree α)
  deriving DecidableEq, Repr

namespace PrefixOp

/-- The token kind of an operator. -/
def kind : PrefixOp → TokenKind
  | negate => .negate
  | dereference => .dereference

/-- Two's complement, or the word in memory. -/
def denote (word : UInt32 → UInt32) : PrefixOp → UInt32 → UInt32
  | negate, a => UInt32.ofNat (UInt32.size - a.toNat)
  | dereference, a => word a

end PrefixOp

namespace BinaryOp

/-- The token kind of an operator. -/
def kind : BinaryOp → TokenKind
  | or => .or
  | and => .and
  | eq => .eq
  | notEq => .notEq
  | add => .plus
  | sub => .minus
  | mul => .star
  | div => .slash

/-- The level of an operator in the grammar. -/
def level : BinaryOp → Nat
  | or => 1
  | and => 2
  | eq | notEq => 3
  | add | sub => 4
  | mul | div => 5

/-- The word that two words make: sums, differences and products modulo `2 ^ 32`, quotients rounded
down, and truth values as zero or one. -/
def denote : BinaryOp → UInt32 → UInt32 → Except EvalError UInt32
  | or, a, b => .ok (if a = 0 ∧ b = 0 then 0 else 1)
  | and, a, b => .ok (if a = 0 ∨ b = 0 then 0 else 1)
  | eq, a, b => .ok (if a = b then 1 else 0)
  | notEq, a, b => .ok (if a = b then 0 else 1)
  | add, a, b => .ok (UInt32.ofNat (a.toNat + b.toNat))
  | sub, a, b => .ok (UInt32.ofNat (UInt32.size + a.toNat - b.toNat))
  | mul, a, b => .ok (UInt32.ofNat (a.toNat * b.toNat))
  | div, a, b =>
    if b = 0 then .error .divideByZero else .ok (UInt32.ofNat (a.toNat / b.toNat))

end BinaryOp

/-- What a tree denotes, given what its operands denote and the memory words by address. The left
side comes before the right one and both before the operator, and the first error is the result. -/
def Tree.denote {α : Type} (operand : α → Except EvalError UInt32) (word : UInt32 → UInt32) :
    Tree α → Except EvalError UInt32
  | .operand a => operand a
  | .unary op e => do
    let value ← e.denote operand word
    return op.denote word value
  | .binary op left right => do
    let a ← left.denote operand word
    let b ← right.denote operand word
    op.denote a b

/-! ## Derivations -/

/-- The level of the prefix operators. -/
def prefixLevel : Nat := 6

/-- The level of operands and of expressions in parentheses. -/
def primaryLevel : Nat := 7

/-- A token list derives a tree at a level of the grammar; `leaf` says which token stands for which
operand. -/
inductive Derives {α : Type} (leaf : Token → α → Prop) : Nat → List Token → Tree α → Prop
  | operand {t : Token} {a : α} (h : leaf t a) : Derives leaf primaryLevel [t] (.operand a)
  | parens {l r : Token} {ts : List Token} {e : Tree α} (hl : l.kind = .lparen)
      (h : Derives leaf 1 ts e) (hr : r.kind = .rparen) :
      Derives leaf primaryLevel (l :: (ts ++ [r])) e
  | unary {t : Token} {ts : List Token} {op : PrefixOp} {e : Tree α} (ht : t.kind = op.kind)
      (h : Derives leaf prefixLevel ts e) : Derives leaf prefixLevel (t :: ts) (.unary op e)
  | binary {n : Nat} {t : Token} {ls rs : List Token} {op : BinaryOp} {left right : Tree α}
      (hn : op.level = n) (hl : Derives leaf n ls left) (ht : t.kind = op.kind)
      (hr : Derives leaf (n + 1) rs right) : Derives leaf n (ls ++ t :: rs) (.binary op left right)
  | tighter {n : Nat} {ts : List Token} {e : Tree α} (h : Derives leaf (n + 1) ts e) :
      Derives leaf n ts e

/-- Can a token of this kind be an operand by itself? -/
def TokenKind.isOperand : TokenKind → Bool
  | .number | .hexNumber | .register => true
  | _ => false

/-! ## Operators and their kinds -/

theorem PrefixOp.precedence_kind (op : PrefixOp) : op.kind.precedence = some prefixPrecedence := by
  cases op <;> rfl

theorem PrefixOp.isUnary_kind (op : PrefixOp) : op.kind.isUnary = true := by
  cases op <;> rfl

theorem BinaryOp.precedence_kind (op : BinaryOp) : op.kind.precedence = some op.level := by
  cases op <;> rfl

theorem BinaryOp.isUnary_kind (op : BinaryOp) : op.kind.isUnary = false := by
  cases op <;> rfl

theorem PrefixOp.isOperand_kind (op : PrefixOp) : op.kind.isOperand = false := by
  cases op <;> rfl

theorem BinaryOp.isOperand_kind (op : BinaryOp) : op.kind.isOperand = false := by
  cases op <;> rfl

theorem BinaryOp.level_pos (op : BinaryOp) : 1 ≤ op.level := by
  cases op <;> decide

theorem BinaryOp.level_lt (op : BinaryOp) : op.level < prefixPrecedence := by
  cases op <;> decide

theorem exists_prefixOp {k : TokenKind} (h : k.isUnary = true) : ∃ op : PrefixOp, k = op.kind := by
  cases k <;> first
    | exact ⟨.negate, rfl⟩
    | exact ⟨.dereference, rfl⟩
    | exact absurd h (by simp [TokenKind.isUnary])

theorem exists_binaryOp {k : TokenKind} {p : Nat} (hp : k.precedence = some p)
    (hu : k.isUnary = false) : ∃ op : BinaryOp, k = op.kind ∧ op.level = p := by
  have hkind : ∃ op : BinaryOp, k = op.kind := by
    cases k <;> first
      | exact ⟨.or, rfl⟩
      | exact ⟨.and, rfl⟩
      | exact ⟨.eq, rfl⟩
      | exact ⟨.notEq, rfl⟩
      | exact ⟨.add, rfl⟩
      | exact ⟨.sub, rfl⟩
      | exact ⟨.mul, rfl⟩
      | exact ⟨.div, rfl⟩
      | (simp [TokenKind.precedence, TokenKind.isUnary] at hp hu)
  obtain ⟨op, rfl⟩ := hkind
  rw [op.precedence_kind] at hp
  exact ⟨op, rfl, Option.some.inj hp⟩

theorem precedence_of_isOperand {k : TokenKind} (h : k.isOperand = true) : k.precedence = none := by
  cases k <;> first | rfl | exact absurd h (by simp [TokenKind.isOperand])

theorem nesting_of_isOperand {k : TokenKind} (h : k.isOperand = true) : k.nesting = 0 := by
  cases k <;> first | rfl | exact absurd h (by simp [TokenKind.isOperand])

/-! ## What derives a tree -/

section Leaf

variable {α : Type} {leaf : Token → α → Prop}

theorem Derives.mono {n k : Nat} {ts : List Token} {e : Tree α} (h : Derives leaf n ts e)
    (hk : k ≤ n) : Derives leaf k ts e := by
  induction hk with
  | refl => exact h
  | step _ ih => exact ih (.tighter h)

variable (hleaf : ∀ t a, leaf t a → t.kind.isOperand = true)

include hleaf

/-- Parentheses match in what derives a tree. -/
theorem Derives.balanced {n : Nat} {ts : List Token} {e : Tree α} (h : Derives leaf n ts e) :
    Balanced ts := by
  induction h with
  | operand h => exact .singleton (nesting_of_isOperand (hleaf _ _ h))
  | parens hl _ hr ih => exact ih.parens hl hr
  | @unary t ts op e ht _ ih =>
    have hop : t.kind.nesting = 0 := nesting_of_precedence (ht ▸ op.precedence_kind)
    exact (Balanced.singleton hop).append ih
  | @binary n t ls rs op left right _ _ ht _ ihl ihr =>
    have hop : t.kind.nesting = 0 := nesting_of_precedence (ht ▸ op.precedence_kind)
    exact ihl.append ((Balanced.singleton hop).append ihr)
  | tighter _ ih => exact ih

/-- At level `n` no outer operator is looser than `n`. -/
theorem Derives.le_of_outerAt {n : Nat} {ts : List Token} {e : Tree α} (h : Derives leaf n ts e)
    {i p : Nat} (ho : OuterAt ts i p) : n ≤ p := by
  induction h generalizing i p with
  | operand h =>
    have hp := (outerFrom_singleton.mp ho).2.2
    rw [precedence_of_isOperand (hleaf _ _ h)] at hp
    exact absurd hp (by simp)
  | parens hl h hr => exact absurd ho (not_outerAt_parens hl hr (h.balanced hleaf) i p)
  | @unary t ts op e ht _ ih =>
    have hop : t.kind.precedence = some prefixLevel := ht ▸ op.precedence_kind
    cases i with
    | zero =>
      rw [OuterAt, outerFrom_cons_zero, hop] at ho
      exact Nat.le_of_eq (Option.some.inj ho.2)
    | succ i =>
      rw [OuterAt, outerFrom_cons_succ, nesting_of_precedence hop] at ho
      exact ih ho
  | @binary n t ls rs op left right hn hl ht _ ihl ihr =>
    have hop : t.kind.precedence = some n := by rw [ht, op.precedence_kind, hn]
    rw [OuterAt, outerFrom_append, (hl.balanced hleaf).2] at ho
    rcases ho with ho | ⟨j, -, ho⟩
    · exact ihl ho
    · cases j with
      | zero =>
        rw [outerFrom_cons_zero, hop] at ho
        exact Nat.le_of_eq (Option.some.inj ho.2)
      | succ j =>
        rw [outerFrom_cons_succ, nesting_of_precedence hop] at ho
        exact Nat.le_of_succ_le (ihr ho)
  | tighter _ ih => exact Nat.le_of_succ_le (ih ho)

/-- The prefix operator at the root of a tree is dominant. -/
theorem Derives.dominant_unary {t : Token} {ts : List Token} {op : PrefixOp} {e : Tree α}
    (ht : t.kind = op.kind) (h : Derives leaf prefixLevel ts e) :
    dominantOperator (t :: ts) = some 0 := by
  have hop : t.kind.precedence = some prefixPrecedence := ht ▸ op.precedence_kind
  refine dominantOperator_eq_some_iff.mpr
    ⟨prefixPrecedence, outerFrom_cons_zero.mpr ⟨rfl, hop⟩, fun j q hjq => ?_⟩
  have hle := (Derives.unary ht h).le_of_outerAt hleaf hjq
  rcases Nat.lt_or_eq_of_le hle with hlt | rfl
  · exact Or.inl hlt
  · exact Or.inr ⟨rfl, by rw [if_pos rfl]; exact Nat.zero_le j⟩

/-- The binary operator at the root of a tree is dominant. -/
theorem Derives.dominant_binary {n : Nat} {t : Token} {ls rs : List Token} {op : BinaryOp}
    {left right : Tree α} (hn : op.level = n) (hl : Derives leaf n ls left) (ht : t.kind = op.kind)
    (hr : Derives leaf (n + 1) rs right) :
    dominantOperator (ls ++ t :: rs) = some ls.length := by
  have hop : t.kind.precedence = some n := by rw [ht, op.precedence_kind, hn]
  have hne : n ≠ prefixPrecedence := Nat.ne_of_lt (hn ▸ op.level_lt)
  have hdepth := (hl.balanced hleaf).2
  refine dominantOperator_eq_some_iff.mpr ⟨n, outerAt_length_iff.mpr ⟨hdepth, hop⟩, ?_⟩
  intro j q hjq
  rw [OuterAt, outerFrom_append, hdepth] at hjq
  rcases hjq with hjq | ⟨k, rfl, hjq⟩
  · have hj : j < ls.length := by
      obtain ⟨-, u, hu, -⟩ := hjq
      exact (List.getElem?_eq_some_iff.mp hu).1
    rcases Nat.lt_or_eq_of_le (hl.le_of_outerAt hleaf hjq) with hlt | rfl
    · exact Or.inl hlt
    · exact Or.inr ⟨rfl, by rw [if_neg hne]; exact Nat.le_of_lt hj⟩
  · cases k with
    | zero =>
      rw [outerFrom_cons_zero, hop] at hjq
      obtain rfl := Option.some.inj hjq.2
      exact Outranks.refl _
    | succ k =>
      rw [outerFrom_cons_succ, nesting_of_precedence hop] at hjq
      exact Or.inl (hr.le_of_outerAt hleaf hjq)

/-- **An expression belongs to every level that is no tighter than its outer operators.** -/
theorem Derives.lift {n k : Nat} {ts : List Token} {e : Tree α} (h : Derives leaf n ts e)
    (hk : k ≤ primaryLevel) (ho : ∀ i p, OuterAt ts i p → k ≤ p) : Derives leaf k ts e := by
  induction h with
  | operand h => exact (Derives.operand h).mono hk
  | parens hl h hr => exact (Derives.parens hl h hr).mono hk
  | @unary t ts op e ht h =>
    have hop : t.kind.precedence = some prefixLevel := ht ▸ op.precedence_kind
    exact (Derives.unary ht h).mono (ho 0 prefixLevel (outerFrom_cons_zero.mpr ⟨rfl, hop⟩))
  | @binary n t ls rs op left right hn hl ht hr =>
    have hop : t.kind.precedence = some n := by rw [ht, op.precedence_kind, hn]
    exact (Derives.binary hn hl ht hr).mono
      (ho ls.length n (outerAt_length_iff.mpr ⟨(hl.balanced hleaf).2, hop⟩))
  | tighter _ ih => exact ih ho

end Leaf

end MachineMonitor.Expr
