/-!
# White space

Model of `trim` and `is_empty` on a line: the characters with the Unicode property `White_Space`,
and texts that hold nothing else.

Results:
* `isWhiteSpace_of_isWhitespace`: white space in the sense of the standard library is among them.
-/

namespace MachineMonitor.Text

/-- The characters outside ASCII that count as white space, as ranges of code points. -/
def wideWhiteSpace : List (Nat × Nat) :=
  [(0x85, 0x85), (0xA0, 0xA0), (0x1680, 0x1680), (0x2000, 0x200A), (0x2028, 0x2029),
    (0x202F, 0x202F), (0x205F, 0x205F), (0x3000, 0x3000)]

/-- Has the character the property `White_Space`? -/
def isWhiteSpace (c : Char) : Bool :=
  c == ' ' || (0x09 ≤ c.toNat && c.toNat ≤ 0x0D) ||
    wideWhiteSpace.any fun (first, last) => first ≤ c.toNat && c.toNat ≤ last

/-- Does the text hold nothing but white space? -/
def isBlank (s : String) : Bool := s.toList.all isWhiteSpace

theorem isWhiteSpace_of_isWhitespace {c : Char} (h : c.isWhitespace) : isWhiteSpace c := by
  simp only [Char.isWhitespace, Bool.or_eq_true, decide_eq_true_eq] at h
  rcases h with ((rfl | rfl) | rfl) | rfl <;> decide

end MachineMonitor.Text
