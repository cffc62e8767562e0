import MachineMonitor.Json.Value

/-!
# Taking JSON values apart

The readers of single values, and of the members of an object by key. A key that is asked for may
stand at most once. A record is an object with its fields as members, or an array of its fields in
order.

Results:
* `word?_natural`, `string?_text`: a word and a text are read back from the values they make.
-/

namespace MachineMonitor.Json

namespace Value

/-- A count below a bound. -/
def below? (bound : Nat) : Value → Option Nat
  | .number (.natural n) => if n < bound then some n else none
  | _ => none

/-- A count that fits a 32-bit word. -/
def word? (v : Value) : Option UInt32 := (v.below? UInt32.size).map UInt32.ofNat

/-- A count that fits a 64-bit word. -/
def size? (v : Value) : Option Nat := v.below? UInt64.size

/-- The text of a string. -/
def string? : Value → Option String
  | .string text => text
  | _ => none

/-- A truth value. -/
def bool? : Value → Option Bool
  | .bool b => some b
  | _ => none

/-- The elements of an array, each read in the same way. -/
def list? {α : Type} (read : Value → Option α) : Value → Option (List α)
  | .array elements => elements.mapM read
  | _ => none

@[simp] theorem word?_natural (n : UInt32) : (natural n.toNat).word? = some n := by
  simp [word?, natural, below?, UInt32.toNat_lt_size]

@[simp] theorem string?_text (s : String) : (text s).string? = some s := rfl

end Value

namespace Members

/-- The values that stand under a key. -/
def under (members : Members) (key : String) : List Value :=
  members.filterMap fun (k, v) => if k = some key then some v else none

/-- Do all keys have a text? -/
def haveKeys (members : Members) : Bool := members.all fun (key, _) => key.isSome

/-- The members under other keys than these. -/
def without (members : Members) (keys : List String) : Members :=
  members.filter fun (k, _) => !(k.any keys.contains)

/-- The value under a key, if there is one; nothing if there are several. -/
def optional? (members : Members) (key : String) : Option (Option Value) :=
  match members.under key with
  | [] => some none
  | [v] => some (some v)
  | _ => none

/-- Reads the only value under a key. -/
def required? {α : Type} (members : Members) (key : String) (read : Value → Option α) :
    Option α :=
  match members.under key with
  | [v] => read v
  | _ => none

/-- Reads the only value under a key, or takes a default if there is none. -/
def withDefault? {α : Type} (members : Members) (key : String) (default : α)
    (read : Value → Option α) : Option α :=
  match members.under key with
  | [] => some default
  | [v] => read v
  | _ => none

end Members

/-- The fields of a record, each of which may be missing. -/
def Value.record? (keys : List String) : Value → Option (List (Option Value))
  | .object members =>
    if Members.haveKeys members then keys.mapM (Members.optional? members) else none
  | .array elements =>
    if elements.length ≤ keys.length then
      some (elements.map some ++ List.replicate (keys.length - elements.length) none)
    else none
  | _ => none

end MachineMonitor.Json
