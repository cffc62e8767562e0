/-!
# Tokens of an expression

Model of `TokenKind` (`as_str`, here `label`; `ends_operand`, `precedence`, `is_unary`) and of
`Token`. A token is a kind and the source text it was read from. The kinds know how they are
spelled, which of them can end an operand, and how tightly the operators bind.

Idealised: a precedence is a number without a bound. There are six of them.
-/

namespace MachineMonitor.Expr

/-- What a token stands for. The prefix operators are never read directly: they are minus and star
signs that turn out to stand before an operand. -/
inductive TokenKind where
  | plus | minus | star | slash
  | lparen | rparen
  | eq | notEq
  | and | or
  | negate | dereference
  | number | hexNumber | register
  deriving DecidableEq, Repr

namespace TokenKind

/-- All kinds. -/
def all : List TokenKind :=
  [plus, minus, star, slash, lparen, rparen, eq, notEq, and, or, negate, dereference,
    number, hexNumber, register]

/-- A short label: the sign itself, or a word for the kinds that have no sign of their own. -/
def label : TokenKind → String
  | plus => "+"
  | minus => "-"
  | star => "*"
  | slash => "/"
  | lparen => "("
  | rparen => ")"
  | eq => "=="
  | notEq => "!="
  | and => "&&"
  | or => "||"
  | negate => "neg"
  | dereference => "deref"
  | number => "number"
  | hexNumber => "hex number"
  | register => "register"

/-- Can a token of this kind be the last one of an operand? A minus or star sign right after such a
token is a binary operator; anywhere else it is a prefix operator. -/
def endsOperand : TokenKind → Bool
  | number | hexNumber | register | rparen => true
  | _ => false

/-- How tightly an operator binds; the loosest class is 1. Operands and parentheses have none. -/
def precedence : TokenKind → Option Nat
  | or => some 1
  | and => some 2
  | eq | notEq => some 3
  | plus | minus => some 4
  | star | slash => some 5
  | negate | dereference => some 6
  | _ => none

/-- Is this a prefix operator? -/
def isUnary : TokenKind → Bool
  | negate | dereference => true
  | _ => false

/-- The kind that a minus or star sign has in front of an operand. -/
def unaryForm : TokenKind → TokenKind
  | minus => negate
  | star => dereference
  | kind => kind

end TokenKind

/-- A token: its kind and the exact text it was read from. -/
structure Token where
  kind : TokenKind
  text : String
  deriving DecidableEq, Repr

end MachineMonitor.Expr
