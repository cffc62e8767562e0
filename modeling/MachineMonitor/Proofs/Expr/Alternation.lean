import MachineMonitor.Proofs.Expr.Spelling

/-!
# Operands and operators alternate

In what derives a tree, each token either begins an operand or follows one, and which of the two
holds can be read off the token before it. So a pass that looks at the left neighbour alone tells
prefix operators from binary ones.

Results:
* `Derives.alternates`: what derives a tree alternates from a place before an operand to one after.
* `markUnary_lexical`: marking restores the prefix operators of a list that alternates.
-/

namespace MachineMonitor.Expr

/-- Can a token of this kind be the first one of an operand? -/
def TokenKind.startsOperand : TokenKind → Bool
  | .number | .hexNumber | .register | .lparen | .negate | .dereference => true
  | _ => false

/-- Tokens that begin an operand stand where none has just ended, and the others where one has;
`after` says whether one ends right before the list. -/
def Alternates (after : Bool) : List Token → Prop
  | [] => True
  | t :: ts => t.kind.startsOperand = !after ∧ Alternates t.kind.endsOperand ts

/-- Does an operand end right after a list? -/
def endsAfter (after : Bool) : List Token → Bool
  | [] => after
  | t :: ts => endsAfter t.kind.endsOperand ts

theorem endsAfter_append (after : Bool) (ts us : List Token) :
    endsAfter after (ts ++ us) = endsAfter (endsAfter after ts) us := by
  induction ts generalizing after with
  | nil => rfl
  | cons t ts ih => exact ih t.kind.endsOperand

theorem alternates_append {after : Bool} {ts us : List Token} :
    Alternates after (ts ++ us) ↔ Alternates after ts ∧ Alternates (endsAfter after ts) us := by
  induction ts generalizing after with
  | nil => simp [Alternates, endsAfter]
  | cons t ts ih => rw [List.cons_append, Alternates, Alternates, endsAfter, ih, and_assoc]

/-! ## Derivations alternate -/

theorem startsOperand_of_isOperand {k : TokenKind} (h : k.isOperand = true) :
    k.startsOperand = true := by
  cases k <;> first | rfl | exact absurd h (by simp [TokenKind.isOperand])

theorem endsOperand_of_isOperand {k : TokenKind} (h : k.isOperand = true) :
    k.endsOperand = true := by
  cases k <;> first | rfl | exact absurd h (by simp [TokenKind.isOperand])

theorem PrefixOp.startsOperand_kind (op : PrefixOp) : op.kind.startsOperand = true := by
  cases op <;> rfl

theorem PrefixOp.endsOperand_kind (op : PrefixOp) : op.kind.endsOperand = false := by
  cases op <;> rfl

theorem BinaryOp.startsOperand_kind (op : BinaryOp) : op.kind.startsOperand = false := by
  cases op <;> rfl

theorem BinaryOp.endsOperand_kind (op : BinaryOp) : op.kind.endsOperand = false := by
  cases op <;> rfl

/-- **What derives a tree alternates**, from a place before an operand to one after it. -/
theorem Derives.alternates {α : Type} {leaf : Token → α → Prop}
    (hleaf : ∀ t a, leaf t a → t.kind.isOperand = true) {n : Nat} {ts : List Token} {e : Tree α}
    (h : Derives leaf n ts e) : Alternates false ts ∧ endsAfter false ts = true := by
  induction h with
  | operand h =>
    have hop := hleaf _ _ h
    exact ⟨⟨startsOperand_of_isOperand hop, trivial⟩, endsOperand_of_isOperand hop⟩
  | @parens l r ts e hl h hr ih =>
    have hend : l.kind.endsOperand = false := by rw [hl]; rfl
    have hstart : l.kind.startsOperand = true := by rw [hl]; rfl
    have hend' : r.kind.endsOperand = true := by rw [hr]; rfl
    have hstart' : r.kind.startsOperand = false := by rw [hr]; rfl
    rw [Alternates, endsAfter, alternates_append, endsAfter_append, hend, ih.2]
    exact ⟨⟨hstart, ih.1, hstart', trivial⟩, hend'⟩
  | @unary t ts op e ht _ ih =>
    rw [Alternates, endsAfter, ht, op.startsOperand_kind, op.endsOperand_kind]
    exact ⟨⟨rfl, ih.1⟩, ih.2⟩
  | @binary n t ls rs op left right _ _ ht _ ihl ihr =>
    rw [alternates_append, endsAfter_append, ihl.2, Alternates, endsAfter, ht,
      op.startsOperand_kind, op.endsOperand_kind]
    exact ⟨⟨ihl.1, rfl, ihr.1⟩, ihr.2⟩
  | tighter _ ih => exact ih

/-! ## Marking prefix operators -/

/-- A token before prefix operators are told from binary ones. -/
def Token.lexical (t : Token) : Token := { t with kind := t.kind.lexical }

theorem endsOperand_lexical (k : TokenKind) : k.lexical.endsOperand = k.endsOperand := by
  cases k <;> rfl

theorem lexical_of_not_startsOperand {k : TokenKind} (h : k.startsOperand = false) :
    k.lexical = k := by
  cases k <;> first | rfl | exact absurd h (by simp [TokenKind.startsOperand])

theorem unaryForm_lexical_of_startsOperand {k : TokenKind} (h : k.startsOperand = true) :
    k.lexical.unaryForm = k := by
  cases k <;> first | rfl | exact absurd h (by simp [TokenKind.startsOperand])

theorem markUnaryAfter_lexical {after : Bool} {ts : List Token} (h : Alternates after ts) :
    markUnaryAfter after (ts.map Token.lexical) = ts := by
  induction ts generalizing after with
  | nil => rfl
  | cons t ts ih =>
    obtain ⟨hstart, hrest⟩ := h
    rw [List.map_cons, markUnaryAfter, Token.lexical, endsOperand_lexical, ih hrest]
    cases after with
    | false => simp only [Bool.false_eq_true, if_false, unaryForm_lexical_of_startsOperand hstart]
    | true => simp only [if_true, lexical_of_not_startsOperand hstart]

/-- **Marking restores the prefix operators** of a list that alternates. -/
theorem markUnary_lexical {ts : List Token} (h : Alternates false ts) :
    markUnary (ts.map Token.lexical) = ts :=
  markUnaryAfter_lexical h

end MachineMonitor.Expr
