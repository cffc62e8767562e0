import MachineMonitor.Json.Quoted
import MachineMonitor.Json.Value

/-!
# Writing JSON

Values are written without spaces, members in their order. A string without a text is written as
one half of a surrogate pair, so that reading it gives a string without a text.
-/

namespace MachineMonitor.Json

/-- A string, whether it has a text or not. -/
def renderString : Option String → List Char
  | some s => Quoted.render s.toList
  | none => ['"', '\\', 'u', 'd', '8', '0', '0', '"']

mutual

/-- The characters of a value. -/
def render : Value → List Char
  | .null => ['n', 'u', 'l', 'l']
  | .bool true => ['t', 'r', 'u', 'e']
  | .bool false => ['f', 'a', 'l', 's', 'e']
  | .number n => n.render
  | .string text => renderString text
  | .array [] => ['[', ']']
  | .array (v :: vs) => '[' :: (render v ++ renderElements vs)
  | .object [] => ['\x7b', '\x7d']
  | .object ((key, v) :: members) =>
    '\x7b' :: (renderString key ++ ':' :: (render v ++ renderMembers members))

/-- The elements of an array after the first one, and its end. -/
def renderElements : List Value → List Char
  | [] => [']']
  | v :: vs => ',' :: (render v ++ renderElements vs)

/-- The members of an object after the first one, and its end. -/
def renderMembers : List (Option String × Value) → List Char
  | [] => ['\x7d']
  | (key, v) :: members =>
    ',' :: (renderString key ++ ':' :: (render v ++ renderMembers members))

end

/-- The text of a value. -/
def Value.print (v : Value) : String := String.ofList (render v)

end MachineMonitor.Json
