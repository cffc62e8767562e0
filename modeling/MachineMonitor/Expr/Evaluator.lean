import MachineMonitor.Expr.Lexer
import MachineMonitor.Numeral

/-!
# Evaluating an expression

Model of `Evaluator` (`evaluate`, `eval_range`, `eval_tokens`), `is_wrapped`, `dominant_operator`,
`apply_binary` and `apply_unary`. A token list is a single operand, a list inside a pair of
parentheses, or is split at its dominant operator: the loosest-binding one outside all parentheses.
All arithmetic is on unsigned 32-bit words and wraps around. The left side is evaluated first and
both sides always are.

Idealised: a depth of parentheses is an integer without a bound, where `is_wrapped` and
`dominant_operator` count in 32 bits; `Proofs/Expr/NarrowDepth` has the evaluator that does so.
Stack and memory are unbounded.

Results:
* `dominantOperator_lt`: the dominant operator is one of the tokens.
-/

namespace MachineMonitor.Expr

/-! ### Parentheses -/

/-- The nesting depth after a token, given the one before it. -/
def depthAfter (depth : Int) (kind : TokenKind) : Int :=
  match kind with
  | .lparen => depth + 1
  | .rparen => depth - 1
  | _ => depth

/-- Does the nesting depth stay at zero or above, and end at zero? -/
def isBalancedFrom (depth : Int) : List Token → Bool
  | [] => depth == 0
  | t :: ts =>
    let depth' := depthAfter depth t.kind
    0 ≤ depth' && isBalancedFrom depth' ts

/-- Are the first and the last token a matching pair of parentheses? -/
def isWrapped : List Token → Bool
  | [] | [_] => false
  | t :: ts =>
    t.kind == .lparen && (ts.getLast?.map (·.kind)) == some .rparen
      && isBalancedFrom 0 ts.dropLast

/-! ### The dominant operator -/

/-- The operator to split at so far: its index and its precedence. -/
abbrev Candidate := Nat × Nat

/-- Does an operator take the place of the candidate? A looser one does. Of one class the later
binary operator does, so that chains group to the left, and the later prefix operator does not, so
that chains group to the right. -/
def supersedes (kind : TokenKind) (precedence : Nat) : Option Candidate → Bool
  | none => true
  | some (_, best) => precedence < best || (precedence == best && !kind.isUnary)

/-- The dominant operator of a list whose first token has index `i` and stands at this depth. -/
def dominantFrom (i : Nat) (depth : Int) (best : Option Candidate) :
    List Token → Option Candidate
  | [] => best
  | t :: ts =>
    let best' :=
      match t.kind.precedence with
      | some p => if depth = 0 ∧ supersedes t.kind p best then some (i, p) else best
      | none => best
    dominantFrom (i + 1) (depthAfter depth t.kind) best' ts

/-- The index of the operator to split at, if there is one outside all parentheses. -/
def dominantOperator (ts : List Token) : Option Nat := (dominantFrom 0 0 none ts).map (·.1)

theorem dominantFrom_lt {i : Nat} {depth : Int} {best : Option Candidate} {ts : List Token}
    {c : Candidate} (hbest : ∀ b, best = some b → b.1 < i)
    (h : dominantFrom i depth best ts = some c) : c.1 < i + ts.length := by
  induction ts generalizing i depth best with
  | nil => simpa using hbest c h
  | cons t ts ih =>
    have := ih (i := i + 1) ?_ h
    · simp only [List.length_cons]; omega
    · intro b hb
      split at hb
      · split at hb
        · cases hb; simp
        · have := hbest b hb; omega
      · have := hbest b hb; omega

theorem dominantOperator_lt {ts : List Token} {i : Nat} (h : dominantOperator ts = some i) :
    i < ts.length := by
  simp only [dominantOperator, Option.map_eq_some_iff] at h
  obtain ⟨c, hc, rfl⟩ := h
  simpa using dominantFrom_lt (by simp) hc

/-! ### Values -/

/-- A truth value as a word. -/
def truth (b : Bool) : UInt32 := if b then 1 else 0

/-- Applies a binary operator. -/
def applyBinary (kind : TokenKind) (left right : UInt32) : Except EvalError UInt32 :=
  match kind with
  | .plus => .ok (left + right)
  | .minus => .ok (left - right)
  | .star => .ok (left * right)
  | .slash => if right = 0 then .error .divideByZero else .ok (left / right)
  | .eq => .ok (truth (left == right))
  | .notEq => .ok (truth (left != right))
  | .and => .ok (truth (left != 0 && right != 0))
  | .or => .ok (truth (left != 0 || right != 0))
  | _ => .error .malformed

section Target

variable {τ : Type} [Target τ]

/-- Applies a prefix operator. -/
def applyUnary (t : τ) (kind : TokenKind) (value : UInt32) : UInt32 :=
  match kind with
  | .dereference => Target.readWord t value
  | _ => -value

/-- The register name that a register token stands for: its text less one leading dollar sign. -/
def registerName (text : String) : String :=
  match text.toList with
  | '$' :: cs => String.ofList cs
  | _ => text

/-- The value of a single token. -/
def evalOperand (t : τ) (token : Token) : Except EvalError UInt32 :=
  match token.kind with
  | .number =>
    match Numeral.word? 10 token.text.toList with
    | some value => .ok value
    | none => .error (.numberOutOfRange token.text)
  | .hexNumber =>
    match Numeral.dropBytes? 2 token.text.toList with
    | some digits =>
      match Numeral.word? 16 digits with
      | some value => .ok value
      | none => .error (.numberOutOfRange token.text)
    | none => .error .malformed
  | .register =>
    match Target.readRegister t (registerName token.text) with
    | .ok value => .ok value
    | .error e => .error (.unknownRegister e.name)
  | _ => .error .malformed

/-- The value of a token list. -/
def evalTokens (t : τ) (tokens : List Token) : Except EvalError UInt32 :=
  match tokens with
  | [] => .error .malformed
  | [token] => evalOperand t token
  | first :: second :: rest =>
    if isWrapped (first :: second :: rest) then evalTokens t (second :: rest).dropLast
    else
      match h : dominantOperator (first :: second :: rest) with
      | none => .error .malformed
      | some i =>
        have hi : i < (first :: second :: rest).length := dominantOperator_lt h
        let kind := (first :: second :: rest)[i].kind
        if kind.isUnary then
          -- A prefix operator dominates only where it leads.
          if i = 0 then do
            let value ← evalTokens t (second :: rest)
            return applyUnary t kind value
          else .error .malformed
        else do
          let left ← evalTokens t ((first :: second :: rest).take i)
          let right ← evalTokens t ((first :: second :: rest).drop (i + 1))
          applyBinary kind left right
termination_by tokens.length
decreasing_by
  · simp only [List.length_dropLast, List.length_cons]; omega
  · simp
  · simp only [List.length_take]; omega
  · simp only [List.length_drop]; omega

/-- The value of the tokens from index `lo` to index `hi`, both included. -/
def evalRange (t : τ) (tokens : List Token) (lo hi : Nat) : Except EvalError UInt32 :=
  if lo ≤ hi ∧ hi < tokens.length then evalTokens t ((tokens.drop lo).take (hi + 1 - lo))
  else .error .malformed

/-- The value of an expression given as text. -/
def evaluate (limits : Limits) (t : τ) (input : String) : Except EvalError UInt32 :=
  match tokenize limits input with
  | .ok b => evalTokens t b.markUnary.tokens
  | .error e => .error (.lex e)

end Target

end MachineMonitor.Expr
