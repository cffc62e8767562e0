import MachineMonitor.Json.Number

/-!
# JSON values

Model of the JSON library, as far as the protocol and the configuration use it. A value as it is
written, members in order and repeated keys kept. A string may have escapes that name half of a
surrogate pair, and then it has no text.

Left out: what the library says about a text that is no value.
-/

namespace MachineMonitor.Json

/-- A JSON value. -/
inductive Value where
  | null
  | bool (b : Bool)
  | number (n : Number)
  | string (text : Option String)
  | array (elements : List Value)
  | object (members : List (Option String × Value))
  deriving Repr

/-- The members of an object, in order. -/
abbrev Members := List (Option String × Value)

namespace Value

/-- A string with a text. -/
def text (s : String) : Value := .string (some s)

/-- A count. -/
def natural (n : Nat) : Value := .number (.natural n)

/-- An object whose keys have a text. -/
def ofFields (fields : List (String × Value)) : Value :=
  .object (fields.map fun (key, v) => (some key, v))

/-! ### Readable values -/

mutual

/-- Can the value be held in memory: do all its strings have a text, are all its numbers finite, and
are its arrays and objects nested at most `levels` deep? -/
def isReadable (levels : Nat) : Value → Bool
  | .null | .bool _ => true
  | .number n => n.isFinite
  | .string text => text.isSome
  | .array elements => 0 < levels && areReadable (levels - 1) elements
  | .object members => 0 < levels && areMembersReadable (levels - 1) members

/-- Is every element readable? -/
def areReadable (levels : Nat) : List Value → Bool
  | [] => true
  | v :: vs => isReadable levels v && areReadable levels vs

/-- Is every key and every value of the members readable? -/
def areMembersReadable (levels : Nat) : List (Option String × Value) → Bool
  | [] => true
  | (key, v) :: members =>
    key.isSome && isReadable levels v && areMembersReadable levels members

end

/-- How deep the arrays and objects of a readable document may be nested. -/
def maxLevels : Nat := 127

end Value

end MachineMonitor.Json
