/-!
# Fields

Model of the padding of a formatted text to a width that is given at run time, `{:>width$}`. A width
is kept in 16 bits; formatting with a larger one does not return.

Idealised: columns are characters, as they are in the formatter.
-/

namespace MachineMonitor.Text

/-- The largest width of a field. -/
def maxFieldWidth : Nat := 65535

/-- Writes a text at the right end of a field, behind blanks; there is no field that is too wide. -/
def alignRight? (width : Nat) (text : String) : Option String :=
  if width ≤ maxFieldWidth then some ("".pushn ' ' (width - text.length) ++ text) else none

end MachineMonitor.Text
