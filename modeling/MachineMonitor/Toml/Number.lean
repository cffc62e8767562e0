import MachineMonitor.Double
import MachineMonitor.Numeral
import MachineMonitor.Toml.Scan

/-!
# Numbers

Integers are decimal with an optional sign, or hexadecimal, octal or binary without one; they must
fit a signed 64-bit word. Floats have a fraction or an exponent. Underscores may stand between two
digits.
-/

namespace MachineMonitor.Toml

open Scan

/-- A number of either kind. -/
inductive Number where
  | integer (n : Int)
  | float
  deriving DecidableEq, Repr

/-! ### Digits -/

/-- Reads one or more digits of a base, perhaps with single underscores between them. -/
def digits (base : Nat) : Scan (List Char) := do
  let digit := one (Numeral.isDigitIn base)
  let first ← digit
  let others ← many do
    let _ ← optional (char '_')
    digit
  return first :: others

/-- Reads a decimal number that has no needless zero in front. -/
def wholeDigits : Scan (List Char) := do
  if ← sees '0' then
    char '0'
    return ['0']
  else digits 10

/-- The value of digits in a base. -/
def valueOf (base : Nat) (ds : List Char) : Scan Nat := StateT.lift (Numeral.natural? base ds)

/-- Reads a sign, if there is one; is it a minus sign? -/
def sign : Scan Bool := do
  match ← optional (one fun c => c == '+' || c == '-') with
  | some c => return c == '-'
  | none => return false

/-! ### Integers -/

/-- Passes an integer that fits a signed 64-bit word. -/
def bounded (n : Int) : Scan Number := do
  guard (Int64.minValue.toInt ≤ n ∧ n ≤ Int64.maxValue.toInt)
  return .integer n

/-- Reads an integer in a base that a word in front of it names. -/
def radixInteger (marker : String) (base : Nat) : Scan Number := do
  word marker
  let n ← valueOf base (← digits base)
  bounded n

/-! ### Decimal numbers -/

/-- Reads a fraction. -/
def fraction : Scan (List Char) := do
  char '.'
  digits 10

/-- Reads an exponent. -/
def exponent : Scan Int := do
  let _ ← one fun c => c == 'e' || c == 'E'
  let negative ← sign
  let n ← valueOf 10 (← digits 10)
  return if negative then -(n : Int) else n

/-- Reads a float that is named by a word. -/
def specialFloat : Scan Number := do
  let _ ← sign
  word "inf" <|> word "nan"
  return .float

/-- Reads a decimal number: a float if it has a fraction or an exponent, an integer otherwise. A
positive float must not be too large; a negative one may be. -/
def decimal : Scan Number := do
  let negative ← sign
  let whole ← wholeDigits
  let fraction ← optional fraction
  let exponent ← optional exponent
  if fraction.isNone && exponent.isNone then
    let n ← valueOf 10 whole
    bounded (if negative then -(n : Int) else n)
  else
    let places := fraction.getD []
    let mantissa ← valueOf 10 (whole ++ places)
    guard (negative || Double.isFinite mantissa (exponent.getD 0 - places.length))
    return .float

/-- Reads a number. -/
def number : Scan Number :=
  radixInteger "0x" 16 <|> radixInteger "0o" 8 <|> radixInteger "0b" 2 <|> specialFloat <|> decimal

end MachineMonitor.Toml
