import MachineMonitor.Expr.TokenBuffer
import MachineMonitor.Numeral

/-!
# Splitting a text into tokens

Model of `Lexer::tokenize` and of its rules, `RULES`. At each place an ordered list of rules is
tried and the first one that matches wins; the spaces it may match are dropped. `scan` follows the
rules alone. `tokenize` collects the tokens of a scan under limits, so limits can only cut a scan
short.

* `Rule.pattern` is the regular expression of a rule, and `Rule.matchLength` how much of the input
  it matches. They stand for the compiled rules, `COMPILED`.
* `visited` is what is traced while a text is split.

Idealised: positions count without a bound.
-/

namespace MachineMonitor.Expr

/-- A lexical rule. -/
inductive Rule where
  | spaces
  | plus | eq | minus | star | slash | lparen | rparen | notEq | and | or
  | register | hexNumber | number
  deriving DecidableEq, Repr

namespace Rule

/-- The rules in the order in which they are tried. -/
def all : List Rule :=
  [spaces, plus, eq, minus, star, slash, lparen, rparen, notEq, and, or, register, hexNumber,
    number]

/-- The place of a rule in that order. -/
def index (r : Rule) : Nat := all.idxOf r

/-- The rule written as a regular expression. -/
def pattern : Rule → String
  | spaces => " +"
  | plus => "\\+"
  | eq => "=="
  | minus => "-"
  | star => "\\*"
  | slash => "/"
  | lparen => "\\("
  | rparen => "\\)"
  | notEq => "!="
  | and => "&&"
  | or => "\\|\\|"
  | register => "\\$(\\$0|ra|[sgt]p|t[0-6]|a[0-7]|s(1[01]|[0-9]))"
  | hexNumber => "0[xX][0-9a-fA-F]+"
  | number => "[0-9]+"

/-- The kind of token that a rule reads; spaces make none. -/
def kind? : Rule → Option TokenKind
  | spaces => none
  | plus => some .plus
  | eq => some .eq
  | minus => some .minus
  | star => some .star
  | slash => some .slash
  | lparen => some .lparen
  | rparen => some .rparen
  | notEq => some .notEq
  | and => some .and
  | or => some .or
  | register => some .register
  | hexNumber => some .hexNumber
  | number => some .number

/-- The register names in the order in which they are tried after a dollar sign: the two-digit
names stand before the names that begin them. -/
def registerNames : List (List Char) :=
  ["$0", "ra", "sp", "gp", "tp", "t0", "t1", "t2", "t3", "t4", "t5", "t6", "a0", "a1", "a2", "a3",
    "a4", "a5", "a6", "a7", "s10", "s11", "s0", "s1", "s2", "s3", "s4", "s5", "s6", "s7", "s8",
    "s9"].map String.toList

/-- The length of this very text, if the input begins with it. -/
def literalLength (text cs : List Char) : Nat := if text.isPrefixOf cs then text.length else 0

/-- The length of the longest run of characters of a class that the input begins with. -/
def runLength (p : Char → Bool) (cs : List Char) : Nat := (cs.takeWhile p).length

/-- The length of `0x` or `0X` and the hexadecimal digits after it, if there is one at least. -/
def hexLength : List Char → Nat
  | '0' :: 'x' :: cs | '0' :: 'X' :: cs =>
    match runLength (Numeral.isDigitIn 16) cs with
    | 0 => 0
    | n + 1 => n + 3
  | _ => 0

/-- The length of a dollar sign and the first register name that stands after it. -/
def registerLength : List Char → Nat
  | '$' :: cs =>
    match registerNames.find? (·.isPrefixOf cs) with
    | some name => name.length + 1
    | none => 0
  | _ => 0

/-- How many characters a rule matches at the beginning of the input; 0 if it does not match. -/
def matchLength : Rule → List Char → Nat
  | spaces => runLength (· == ' ')
  | plus => literalLength ['+']
  | eq => literalLength ['=', '=']
  | minus => literalLength ['-']
  | star => literalLength ['*']
  | slash => literalLength ['/']
  | lparen => literalLength ['(']
  | rparen => literalLength [')']
  | notEq => literalLength ['!', '=']
  | and => literalLength ['&', '&']
  | or => literalLength ['|', '|']
  | register => registerLength
  | hexNumber => hexLength
  | number => runLength (Numeral.isDigitIn 10)

/-- The first rule that matches at the beginning of the input, and how many characters it matches
after the first one. -/
def first? (cs : List Char) : Option (Rule × Nat) :=
  all.findSome? fun r =>
    match r.matchLength cs with
    | 0 => none
    | n + 1 => some (r, n)

end Rule

/-- A piece of the source that a rule matched. -/
structure Lexeme where
  rule : Rule
  position : Nat
  text : String
  deriving DecidableEq, Repr

/-- The pieces of a text in source order, and the place at which no rule matches, if there is one
before the end. -/
structure Scan where
  lexemes : List Lexeme
  stuckAt : Option Nat
  deriving DecidableEq, Repr

/-- Scans the rest of a text that begins at byte `position`. -/
def scanFrom (position : Nat) : List Char → Scan
  | [] => ⟨[], none⟩
  | c :: cs =>
    match Rule.first? (c :: cs) with
    | none => ⟨[], some position⟩
    | some (rule, n) =>
      let text := String.ofList (c :: cs.take n)
      let rest := scanFrom (position + text.utf8ByteSize) (cs.drop n)
      { rest with lexemes := ⟨rule, position, text⟩ :: rest.lexemes }
termination_by cs => cs.length
decreasing_by simp only [List.length_drop, List.length_cons]; omega

/-- Scans a whole text. -/
def scan (input : String) : Scan := scanFrom 0 input.toList

namespace TokenBuffer

/-- Appends the token of a lexeme, if it makes one. -/
def add (b : TokenBuffer) (l : Lexeme) : Except LexError TokenBuffer :=
  match l.rule.kind? with
  | some kind => b.push l.position ⟨kind, l.text⟩
  | none => .ok b

/-- The lexemes that are looked at when they are added one by one: all up to the first one that is
refused, that one included. -/
def visited (b : TokenBuffer) : List Lexeme → List Lexeme
  | [] => []
  | l :: ls =>
    l :: match b.add l with
      | .ok b' => visited b' ls
      | .error _ => []

end TokenBuffer

/-- The tokens of a text, prefix operators not yet told from binary ones. -/
def tokenize (limits : Limits) (input : String) : Except LexError TokenBuffer := do
  let found := scan input
  let b ← found.lexemes.foldlM TokenBuffer.add (TokenBuffer.empty limits)
  match found.stuckAt with
  | some position => .error (.noMatch position)
  | none => .ok b

/-- The lexemes that `tokenize` looks at before it answers. -/
def visited (limits : Limits) (input : String) : List Lexeme :=
  (TokenBuffer.empty limits).visited (scan input).lexemes

end MachineMonitor.Expr
