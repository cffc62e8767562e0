import MachineMonitor.Target
import MachineMonitor.Text.Field

/-!
# Errors of expressions

Model of `LexError` (`position`, `render` and the texts shown) and of `EvalError`: why a text cannot
be split into tokens, why an expression has no value, and how both are shown. Positions and lengths
count UTF-8 bytes of the input.

* `render?` is `LexError::render`. It does not return if the caret would need a field wider than a
  formatted text can have, which is `none` here.

Idealised: positions and lengths are numbers without a bound, so `position + 1` does not wrap round;
no text in memory is long enough for that.
-/

namespace MachineMonitor.Expr

/-- Why a text cannot be split into tokens. -/
inductive LexError where
  | noMatch (position : Nat)
  | tokenTooLong (position len max : Nat)
  | tooManyTokens (max : Nat)
  deriving DecidableEq, Repr

namespace LexError

/-- The text shown for the error. -/
def message : LexError → String
  | noMatch position => s!"No token matches at position {position}"
  | tokenTooLong position len max =>
    s!"Token at position {position} is {len} bytes long, the limit is {max}"
  | tooManyTokens max => s!"Expression has more than {max} tokens"

/-- Where the error lies, if it lies at one place. -/
def position? : LexError → Option Nat
  | noMatch position | tokenTooLong position _ _ => some position
  | tooManyTokens _ => none

/-- The message, the input, and a caret under the place of the error; the message alone if the error
lies at no single place. There is no text if the caret stands too far right. -/
def render? (e : LexError) (input : String) : Option String :=
  match e.position? with
  | some position => do
    let caret ← Text.alignRight? (position + 1) "^"
    return e.message ++ "\n" ++ input ++ "\n" ++ caret
  | none => some e.message

end LexError

/-- Why an expression has no value. -/
inductive EvalError where
  | lex (error : LexError)
  | malformed
  | unknownRegister (name : String)
  | divideByZero
  | numberOutOfRange (text : String)
  deriving DecidableEq, Repr

namespace EvalError

/-- The text shown for the error. -/
def message : EvalError → String
  | lex error => error.message
  | malformed => "Malformed expression"
  | unknownRegister name => UnknownRegister.message ⟨name⟩
  | divideByZero => "Division by zero"
  | numberOutOfRange text => s!"Number out of range: {text}"

end EvalError

end MachineMonitor.Expr
