import MachineMonitor.Numeral

/-!
# Quoted texts

A JSON string is written between double quotes. Quotes, backslashes and control characters are
escaped and all else is written as it is. Reading accepts more escapes than writing makes: among
them the two halves of a surrogate pair, which may also stand alone and then make no text.

Results:
* `join_map_char`: pieces that are all characters make the text of these characters.
-/

namespace MachineMonitor.Json.Quoted

/-! ### Writing -/

/-- The first of the characters that stand for themselves. -/
def firstPlain : Nat := 0x20

/-- A character as it stands between the quotes. -/
def escape (c : Char) : List Char :=
  if c = '"' then ['\\', '"']
  else if c = '\\' then ['\\', '\\']
  else if c = '\x08' then ['\\', 'b']
  else if c = '\x0c' then ['\\', 'f']
  else if c = '\n' then ['\\', 'n']
  else if c = '\r' then ['\\', 'r']
  else if c = '\t' then ['\\', 't']
  else if c.toNat < firstPlain then
    ['\\', 'u', '0', '0', Nat.digitChar (c.toNat / 16), Nat.digitChar (c.toNat % 16)]
  else [c]

/-- A text in quotes. -/
def render (text : List Char) : List Char := '"' :: (text.flatMap escape ++ ['"'])

/-! ### Reading -/

/-- What one place of a string denotes: a character, or half of a surrogate pair. -/
inductive Piece where
  | char (c : Char)
  | half (unit : Nat)
  deriving DecidableEq, Repr

/-- Does a 16-bit unit begin a surrogate pair? -/
def isHighHalf (unit : Nat) : Bool := 0xD800 ≤ unit && unit < 0xDC00

/-- Does a 16-bit unit end a surrogate pair? -/
def isLowHalf (unit : Nat) : Bool := 0xDC00 ≤ unit && unit < 0xE000

/-- What a 16-bit unit denotes. -/
def Piece.ofUnit (unit : Nat) : Piece :=
  if isHighHalf unit || isLowHalf unit then .half unit else .char (Char.ofNat unit)

/-- The 16-bit unit that four hexadecimal digits name. -/
def unit? (a b c d : Char) : Option Nat := Numeral.natural? 16 [a, b, c, d]

/-- The character that a backslash and this character stand for. -/
def shortEscape? : Char → Option Char
  | '"' => some '"'
  | '\\' => some '\\'
  | '/' => some '/'
  | 'b' => some '\x08'
  | 'f' => some '\x0c'
  | 'n' => some '\n'
  | 'r' => some '\r'
  | 't' => some '\t'
  | _ => none

/-- The pieces up to the closing quote, and what follows it. -/
def scan? : List Char → Option (List Piece × List Char)
  | [] => none
  | '"' :: cs => some ([], cs)
  | '\\' :: 'u' :: a :: b :: c :: d :: cs =>
    match unit? a b c d, scan? cs with
    | some unit, some (pieces, rest) => some (.ofUnit unit :: pieces, rest)
    | _, _ => none
  | '\\' :: c :: cs =>
    match shortEscape? c, scan? cs with
    | some c, some (pieces, rest) => some (.char c :: pieces, rest)
    | _, _ => none
  | c :: cs =>
    if c.toNat < firstPlain then none
    else
      match scan? cs with
      | some (pieces, rest) => some (.char c :: pieces, rest)
      | none => none

/-- The character that a surrogate pair names. -/
def pair (high low : Nat) : Char :=
  Char.ofNat (0x10000 + (high - 0xD800) * 0x400 + (low - 0xDC00))

/-- The text that pieces make; none if half of a surrogate pair stands alone. -/
def join : List Piece → Option (List Char)
  | [] => some []
  | .char c :: pieces => (join pieces).map (c :: ·)
  | .half high :: .half low :: pieces =>
    if isHighHalf high && isLowHalf low then (join pieces).map (pair high low :: ·) else none
  | .half _ :: _ => none

theorem join_map_char (text : List Char) : join (text.map .char) = some text := by
  induction text with
  | nil => rfl
  | cons c cs ih => simp [join, ih]

end MachineMonitor.Json.Quoted
