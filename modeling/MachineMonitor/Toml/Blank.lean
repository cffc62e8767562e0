import MachineMonitor.Toml.Scan

/-!
# Blanks, newlines and comments

A line ends in a line feed, which a carriage return may stand before; a carriage return alone is
not allowed anywhere. Comments run to the end of their line and hold no control characters but tabs.
-/

namespace MachineMonitor.Toml

open Scan

/-- The blanks inside a line. -/
def isSpace (c : Char) : Bool := c == ' ' || c == '\t'

/-- The characters that may stand in comments and strings. -/
def isTextChar (c : Char) : Bool := c == '\t' || (0x20 ≤ c.toNat && c.toNat != 0x7F)

/-- Skips blanks. -/
def spaces : Scan Unit := do let _ ← span isSpace

/-- Reads the end of a line. -/
def newline : Scan Unit := word "\n" <|> word "\r\n"

/-- Reads a comment up to the end of its line. -/
def comment : Scan Unit := do
  char '#'
  let _ ← span isTextChar

/-- Reads what may follow on a line that has nothing more to say. -/
def lineEnd : Scan Unit := do
  spaces
  let _ ← optional comment
  if !(← atEnd) then newline

/-- Skips blanks, newlines and comments. -/
def filler : Scan Unit := do
  let _ ← many <|
    (do let _ ← one isSpace) <|> newline <|> (do comment; newline)

end MachineMonitor.Toml
