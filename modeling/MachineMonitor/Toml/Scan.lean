/-!
# Scanning a text from left to right

A scan reads from the front of a list of characters, and gives back what it found and the rest, or
fails. Of two scans joined by `<|>` the second one starts where the first one did.
-/

namespace MachineMonitor.Toml

/-- Something that reads from the front of a text. -/
abbrev Scan := StateT (List Char) Option

namespace Scan

/-- What is left to read. -/
def rest : Scan (List Char) := get

/-- Has all been read? -/
def atEnd : Scan Bool := return (← get).isEmpty

/-- Is this the next character? -/
def sees (c : Char) : Scan Bool := return (← get).head? == some c

/-- Reads one character of a class. -/
def one (p : Char → Bool) : Scan Char := do
  match ← get with
  | c :: cs =>
    guard (p c)
    set cs
    return c
  | [] => failure

/-- Reads this very character. -/
def char (c : Char) : Scan Unit := do let _ ← one (· == c)

/-- Reads this very word. -/
def word (w : String) : Scan Unit := do
  let cs ← get
  guard (w.toList.isPrefixOf cs)
  set (cs.drop w.length)

/-- Reads all characters of a class up to the first one that is not. -/
def span (p : Char → Bool) : Scan (List Char) := do
  let cs ← get
  set (cs.dropWhile p)
  return cs.takeWhile p

/-- Reads this many characters of a class. -/
def exactly (p : Char → Bool) : Nat → Scan (List Char)
  | 0 => return []
  | n + 1 => return (← one p) :: (← exactly p n)

/-- Reads at most `fuel` items. -/
def upTo {α : Type} (item : Scan α) : Nat → Scan (List α)
  | 0 => return []
  | fuel + 1 => do
    match ← optional item with
    | some a => return a :: (← upTo item fuel)
    | none => return []

/-- Reads items as long as there are any. An item takes away at least one character, so there are
no more of them than characters. -/
def many {α : Type} (item : Scan α) : Scan (List α) := do upTo item (← rest).length

/-- Reads one or more items with a separator between them. -/
def separated {α : Type} (item : Scan α) (separator : Scan Unit) : Scan (List α) :=
  return (← item) :: (← many (do separator; item))

/-- The result of a scan that reads a whole text. -/
def all? {α : Type} (scan : Scan α) (input : List Char) : Option α :=
  match StateT.run scan input with
  | some (a, []) => some a
  | _ => none

end Scan

end MachineMonitor.Toml
