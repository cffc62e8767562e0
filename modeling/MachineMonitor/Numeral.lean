/-!
# Numerals

Model of what `eval_operand` takes from the standard library: reading a 32-bit word from digits in a
base, and cutting a text at a byte. Digits may be in any base up to 36. A numeral for a 32-bit word
is one or more digits, of which any number of leading ones may be zero, and may begin with one plus
sign.

Results:
* `lt_of_digitIn?`: a digit is less than its base.
-/

namespace MachineMonitor.Numeral

/-- The value of a digit, letters of either case counting from ten. -/
def digit? (c : Char) : Option Nat :=
  if '0' ≤ c ∧ c ≤ '9' then some (c.toNat - '0'.toNat)
  else if 'a' ≤ c ∧ c ≤ 'z' then some (c.toNat - 'a'.toNat + 10)
  else if 'A' ≤ c ∧ c ≤ 'Z' then some (c.toNat - 'A'.toNat + 10)
  else none

/-- The value of a digit of a base. -/
def digitIn? (base : Nat) (c : Char) : Option Nat := (digit? c).filter (· < base)

/-- Is this a digit of a base? -/
def isDigitIn (base : Nat) (c : Char) : Bool := (digitIn? base c).isSome

theorem lt_of_digitIn? {base d : Nat} {c : Char} (h : digitIn? base c = some d) : d < base := by
  simp only [digitIn?, Option.filter_eq_some_iff, decide_eq_true_eq] at h
  exact h.2

/-- Reads the remaining digits, `acc` being the value of those before them. -/
def digitsFrom? (base acc : Nat) : List Char → Option Nat
  | [] => some acc
  | c :: cs =>
    match digitIn? base c with
    | some d => digitsFrom? base (acc * base + d) cs
    | none => none

/-- Reads one or more digits. -/
def natural? (base : Nat) : List Char → Option Nat
  | [] => none
  | cs => digitsFrom? base 0 cs

/-- Drops one leading plus sign. -/
def dropPlus : List Char → List Char
  | '+' :: cs => cs
  | cs => cs

/-- Reads a numeral that fits a 32-bit word. -/
def word? (base : Nat) (cs : List Char) : Option UInt32 :=
  match natural? base (dropPlus cs) with
  | some n => if n < UInt32.size then some (UInt32.ofNat n) else none
  | none => none

/-- Drops the first `n` bytes of the UTF-8 text; `none` if there are fewer, or if the cut would
fall inside a character. -/
def dropBytes? : Nat → List Char → Option (List Char)
  | 0, cs => some cs
  | _ + 1, [] => none
  | n + 1, c :: cs => if c.utf8Size ≤ n + 1 then dropBytes? (n + 1 - c.utf8Size) cs else none

end MachineMonitor.Numeral
