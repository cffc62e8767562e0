import MachineMonitor.Toml.Datetime
import MachineMonitor.Toml.Number
import MachineMonitor.Toml.Quoted
import MachineMonitor.Toml.Table

/-!
# Reading a document

Model of the TOML library, as far as configuration files use it. A document is a sequence of lines,
each with an assignment, a header or nothing; a value in brackets may run over several lines. Keys
have fewer than 80 parts, and brackets and braces are nested less than 80 deep.

Left out: what the library says about a text that is no document.
-/

namespace MachineMonitor.Toml

open Scan

/-! ### Keys -/

/-- Keys must have fewer parts than this, and values must be nested less deep. -/
def depthLimit : Nat := 80

/-- The characters of a key that stands without quotes. -/
def isBareKeyChar (c : Char) : Bool := c.isAlphanum || c == '_' || c == '-'

/-- Reads a key without quotes. -/
def bareKey : Scan (List Char) := do
  let cs ← span isBareKeyChar
  guard !cs.isEmpty
  return cs

/-- Reads one part of a dotted key, and the blanks around it. -/
def keyPart : Scan String := do
  spaces
  let cs ← basicString <|> literalString <|> bareKey
  spaces
  return String.ofList cs

/-- Reads a dotted key. -/
def key : Scan KeyPath := do
  let parts ← separated keyPart (char '.')
  guard (parts.length < depthLimit)
  StateT.lift (KeyPath.ofParts? parts)

/-! ### Values -/

/-- Reads a value that is not made of other values. -/
def scalar : Scan Value :=
  Value.string <$> string <|>
    (do
      datetime
      return .datetime) <|>
    (do
      match ← number with
      | .integer n => return .integer n
      | .float => return .float) <|>
    (do
      word "true"
      return .boolean true) <|>
    (do
      word "false"
      return .boolean false)

/-- Reads an array of values. -/
def array (value : Scan Value) : Scan Value := do
  char '['
  let element : Scan Value := do
    filler
    let v ← value
    filler
    return v
  let elements ← optional do
    let vs ← separated element (char ',')
    let _ ← optional (char ',')
    return vs
  filler
  char ']'
  return .array (elements.getD [])

/-- Reads an assignment, given how its value is read. -/
def assignment (value : Scan Value) : Scan (KeyPath × Value) := do
  let dest ← key
  char '='
  spaces
  return (dest, ← value)

/-- Reads a table in braces. -/
def inlineTable (value : Scan Value) : Scan Value := do
  char '\x7b'
  let entry : Scan (KeyPath × Value) := do
    let e ← assignment value
    spaces
    return e
  let entries ← optional (separated entry (char ','))
  spaces
  char '\x7d'
  let es ← StateT.lift (Entries.assignAll? (entries.getD []) [])
  return .table .inline es

/-- Reads a value in which brackets and braces are nested at most `levels` deep. -/
def value : Nat → Scan Value
  | 0 => scalar
  | levels + 1 => do
    if ← sees '[' then array (value levels)
    else if ← sees '\x7b' then inlineTable (value levels)
    else scalar

/-! ### Lines -/

/-- A line that says something. -/
inductive Line where
  | header (kind : HeaderKind) (dest : KeyPath)
  | assignment (dest : KeyPath) (v : Value)
  deriving Repr

/-- Reads a header. -/
def header : Scan Line := do
  char '['
  if ← sees '[' then
    char '['
    let dest ← key
    word "]]"
    return .header .arrayElement dest
  else
    let dest ← key
    char ']'
    return .header .table dest

/-- Reads a line that says something, to its end. -/
def line : Scan Line := do
  let l ←
    if ← sees '[' then header
    else do
      let (dest, v) ← assignment (value (depthLimit - 1))
      pure (.assignment dest v)
  lineEnd
  return l

/-- Reads the lines of a document that say something. -/
def lines : Scan (List Line) := do
  let ls ← many do
    filler
    line
  filler
  let _ ← optional comment
  return ls

/-- Puts assignments under the headers that stand before them. The first result holds those that
have no header before them. -/
def sections : List Line → List (KeyPath × Value) × List Section
  | [] => ([], [])
  | .assignment dest v :: ls =>
    let (top, rest) := sections ls
    ((dest, v) :: top, rest)
  | .header kind dest :: ls =>
    let (top, rest) := sections ls
    ([], ⟨kind, dest, top⟩ :: rest)

/-- Drops a byte order mark. -/
def dropMark : List Char → List Char
  | '\uFEFF' :: cs => cs
  | cs => cs

/-- The entries of the document that a text holds. -/
def parse? (input : String) : Option Entries := do
  let ls ← all? lines (dropMark input.toList)
  let (top, sections) := sections ls
  Entries.ofDocument? top sections

end MachineMonitor.Toml
