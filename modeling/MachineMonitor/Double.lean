/-!
# The range of doubles

When is a decimal number too large for a double? Read exactly, it is so from the midpoint between
the largest double and the next power of two. Read as a product, its leading digits and its power
of ten are rounded to doubles first.

Results:
* `leading_fst_lt`: the leading digits fit a 64-bit word.
-/

namespace MachineMonitor.Double

/-- Numbers from here on round to infinity. -/
def overflow : Nat := Nat.pow 2 1024 - Nat.pow 2 970

/-- Is the double nearest to `mantissa * 10 ^ exponent` finite? The number of digits decides unless
the number is close to the bound. -/
def isFinite (mantissa : Nat) (exponent : Int) : Bool :=
  let magnitude := (Nat.toDigits 10 mantissa).length + exponent
  if mantissa = 0 ∨ magnitude ≤ 308 then true
  else if 309 < magnitude then false
  else if 0 ≤ exponent then mantissa * Nat.pow 10 exponent.toNat < overflow
  else mantissa < overflow * Nat.pow 10 exponent.natAbs

/-- The leading digits that fit a 64-bit word, and how many digits follow them. -/
def leading (n : Nat) : Nat × Nat :=
  if n < UInt64.size then (n, 0)
  else
    let (m, dropped) := leading (n / 10)
    (m, dropped + 1)
termination_by n
decreasing_by
  rename_i h
  simp only [UInt64.size] at h
  omega

theorem leading_fst_lt (n : Nat) : (leading n).1 < UInt64.size := by
  fun_induction leading n with
  | case1 n h => exact h
  | case2 n h m dropped eq ih => simpa [eq] using ih

/-- Rounds to 53 significant bits, a half going to the even neighbour. -/
def round (n : Nat) : Nat :=
  let unit := Nat.pow 2 (n.log2 + 1 - 53)
  let q := n / unit
  let r := n % unit
  if unit < 2 * r ∨ (unit = 2 * r ∧ q % 2 = 1) then (q + 1) * unit else q * unit

/-- Is `mantissa * 10 ^ exponent` finite, when both factors are rounded to doubles and then
multiplied, the mantissa being cut to its leading digits? -/
def isFiniteProduct (mantissa : Nat) (exponent : Int) : Bool :=
  let (m, dropped) := leading mantissa
  let e := exponent + dropped
  m == 0 || e ≤ 0 || (e ≤ 308 && round m * round (Nat.pow 10 e.toNat) < overflow)

end MachineMonitor.Double
