import MachineMonitor.Numeral
import MachineMonitor.Toml.Blank

/-!
# Strings

Strings stand in double quotes, with escapes, or in single quotes, without. Three quotes open a
string over several lines; up to two quotes may then stand inside, also right before the closing
three.
-/

namespace MachineMonitor.Toml

open Scan

/-- Reads the character that this many hexadecimal digits name. -/
def codePoint (digits : Nat) : Scan Char := do
  let n ← StateT.lift (Numeral.natural? 16 (← exactly (Numeral.isDigitIn 16) digits))
  guard n.isValidChar
  return Char.ofNat n

/-- The character that a backslash and this character stand for. -/
def shortEscape? : Char → Option Char
  | 'b' => some '\x08'
  | 'f' => some '\x0c'
  | 'n' => some '\n'
  | 'r' => some '\r'
  | 't' => some '\t'
  | '"' => some '"'
  | '\\' => some '\\'
  | _ => none

/-- Reads an escape. -/
def escape : Scan Char := do
  char '\\'
  let c ← one fun _ => true
  if c = 'u' then codePoint 4
  else if c = 'U' then codePoint 8
  else StateT.lift (shortEscape? c)

/-! ### Strings on one line -/

/-- Is this a character that stands for itself between double quotes? -/
def isBasicChar (c : Char) : Bool := isTextChar c && c != '"' && c != '\\'

/-- Is this a character that stands for itself between single quotes? -/
def isLiteralChar (c : Char) : Bool := isTextChar c && c != '\''

/-- Reads a string in double quotes. -/
def basicString : Scan (List Char) := do
  char '"'
  let cs ← many (one isBasicChar <|> escape)
  char '"'
  return cs

/-- Reads a string in single quotes. -/
def literalString : Scan (List Char) := do
  char '\''
  let cs ← span isLiteralChar
  char '\''
  return cs

/-! ### Strings over several lines -/

/-- Reads a backslash at the end of a line, and all blanks and newlines up to the next text. -/
def lineContinuation : Scan (List Char) := do
  char '\\'
  spaces
  newline
  let _ ← many ((do let _ ← one isSpace) <|> newline)
  return []

/-- Reads a newline as a line feed. -/
def lineFeed : Scan (List Char) := do
  newline
  return ['\n']

/-- Reads quotes that do not close the string: one or two with something else after them. -/
def innerQuotes (quote : Char) : Scan (List Char) := do
  let quotes ← span (· == quote)
  guard (0 < quotes.length && quotes.length < 3)
  return quotes

/-- Reads the closing quotes, with one or two before them that belong to the string. -/
def closingQuotes (quote : Char) : Scan (List Char) := do
  let quotes ← span (· == quote)
  guard (3 ≤ quotes.length && quotes.length ≤ 5)
  return quotes.drop 3

/-- Reads a string over several lines, of these pieces. -/
def multiline (quote : Char) (piece : Scan (List Char)) : Scan (List Char) := do
  word (String.ofList [quote, quote, quote])
  let _ ← optional newline
  let pieces ← many (piece <|> lineFeed <|> innerQuotes quote)
  let last ← closingQuotes quote
  return pieces.flatten ++ last

/-- Reads a string over several lines in double quotes. -/
def multilineBasicString : Scan (List Char) :=
  multiline '"' <|
    (return [← one isBasicChar]) <|> lineContinuation <|> (return [← escape])

/-- Reads a string over several lines in single quotes. -/
def multilineLiteralString : Scan (List Char) :=
  multiline '\'' (return [← one isLiteralChar])

/-- Reads a string of any kind. -/
def string : Scan String :=
  String.ofList <$>
    (multilineBasicString <|> basicString <|> multilineLiteralString <|> literalString)

end MachineMonitor.Toml
