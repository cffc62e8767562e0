import MachineMonitor.Expr.Error
import MachineMonitor.Expr.Token

/-!
# Token buffers

Model of `TokenBuffer` (`with_limits`, `push`, `mark_unary`), with the default limits `MAX_TOKENS`
and `MAX_TOKEN_LEN`. The tokens of one expression are collected under two limits, and a pass over
them tells prefix operators from binary ones.

Left out: `kinds`, `len`, `is_empty` and `as_slice`, for which the list of the tokens stands.
Idealised: lengths and limits are numbers without a bound, and there is memory for as many tokens as
the limits allow.
-/

namespace MachineMonitor.Expr

/-- How many tokens an expression may have, and how many bytes one token may have. -/
structure Limits where
  maxTokens : Nat := 32
  maxTokenLen : Nat := 32
  deriving DecidableEq, Repr

/-- Tokens in source order, and the limits they obey. -/
structure TokenBuffer where
  tokens : List Token
  limits : Limits
  deriving DecidableEq, Repr

/-- Turns minus and star signs into prefix operators where no operand ends right before them;
`afterOperand` says whether one ends before the first token. -/
def markUnaryAfter (afterOperand : Bool) : List Token → List Token
  | [] => []
  | t :: ts =>
    { t with kind := if afterOperand then t.kind else t.kind.unaryForm } ::
      markUnaryAfter t.kind.endsOperand ts

/-- Tells prefix operators from binary ones in a whole expression. -/
def markUnary (ts : List Token) : List Token := markUnaryAfter false ts

namespace TokenBuffer

/-- A buffer without tokens. -/
def empty (limits : Limits) : TokenBuffer := ⟨[], limits⟩

/-- Appends a token that starts at byte `position` of the source. A token that is too long is
reported as such also when the buffer is full. -/
def push (b : TokenBuffer) (position : Nat) (t : Token) : Except LexError TokenBuffer :=
  if b.limits.maxTokenLen < t.text.utf8ByteSize then
    .error (.tokenTooLong position t.text.utf8ByteSize b.limits.maxTokenLen)
  else if b.limits.maxTokens ≤ b.tokens.length then
    .error (.tooManyTokens b.limits.maxTokens)
  else .ok { b with tokens := b.tokens ++ [t] }

/-- Tells prefix operators from binary ones in the buffer. -/
def markUnary (b : TokenBuffer) : TokenBuffer := { b with tokens := Expr.markUnary b.tokens }

end TokenBuffer

end MachineMonitor.Expr
