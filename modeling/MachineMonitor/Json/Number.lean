import MachineMonitor.Double
import MachineMonitor.Numeral

/-!
# JSON numbers

A number written with digits alone is kept apart from one with a sign, a fraction or an exponent:
only the first kind can stand where a count is asked for. `scan?` and `render` are inverse on what
`render` writes.
-/

namespace MachineMonitor.Json

/-- A number as it is written: digits alone, or a mantissa times a power of ten. -/
inductive Number where
  | natural (n : Nat)
  | decimal (negative : Bool) (mantissa : Nat) (exponent : Int)
  deriving DecidableEq, Repr

namespace Number

/-! ### Writing -/

/-- A minus sign, if one is asked for. -/
def renderSign (negative : Bool) : List Char := if negative then ['-'] else []

/-- The text of a number. -/
def render : Number → List Char
  | natural n => Nat.toDigits 10 n
  | decimal negative mantissa exponent =>
    renderSign negative ++ Nat.toDigits 10 mantissa ++
      'e' :: (renderSign (exponent < 0) ++ Nat.toDigits 10 exponent.natAbs)

/-! ### Reading -/

/-- Splits off a minus sign. -/
def scanSign : List Char → Bool × List Char
  | '-' :: cs => (true, cs)
  | cs => (false, cs)

/-- Splits off one or more digits. -/
def scanDigits? (cs : List Char) : Option (List Char × List Char) :=
  match cs.takeWhile Char.isDigit with
  | [] => none
  | ds => some (ds, cs.dropWhile Char.isDigit)

/-- Splits off a whole number, which has no needless zero in front. -/
def scanWhole? (cs : List Char) : Option (List Char × List Char) :=
  match scanDigits? cs with
  | some ('0' :: _ :: _, _) => none
  | found => found

/-- Splits off a fraction, if there is one. -/
def scanFraction? : List Char → Option (List Char × List Char)
  | '.' :: cs => scanDigits? cs
  | cs => some ([], cs)

/-- Splits off the sign and the digits of an exponent. -/
def scanPower? (cs : List Char) : Option (Option Int × List Char) :=
  let (negative, cs) :=
    match cs with
    | '+' :: cs => (false, cs)
    | cs => scanSign cs
  match scanDigits? cs with
  | none => none
  | some (ds, rest) =>
    (Numeral.natural? 10 ds).map fun n => (some (if negative then -(n : Int) else n), rest)

/-- Splits off an exponent, if there is one. -/
def scanExponent? : List Char → Option (Option Int × List Char)
  | 'e' :: cs | 'E' :: cs => scanPower? cs
  | cs => some (none, cs)

/-- Splits off a number. -/
def scan? (cs : List Char) : Option (Number × List Char) := do
  let (negative, cs) := scanSign cs
  let (whole, cs) ← scanWhole? cs
  let (fraction, cs) ← scanFraction? cs
  let (exponent, cs) ← scanExponent? cs
  let mantissa ← Numeral.natural? 10 (whole ++ fraction)
  if negative = false ∧ fraction = [] ∧ exponent = none then return (natural mantissa, cs)
  else return (decimal negative mantissa (exponent.getD 0 - fraction.length), cs)

/-- Does the number have a finite double? -/
def isFinite : Number → Bool
  | natural n => Double.isFiniteProduct n 0
  | decimal _ mantissa exponent => Double.isFiniteProduct mantissa exponent

end Number

end MachineMonitor.Json
