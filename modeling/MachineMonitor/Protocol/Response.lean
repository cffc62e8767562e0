import MachineMonitor.Json.Parser
import MachineMonitor.Json.Printer
import MachineMonitor.Protocol.Records

/-!
# Responses

Model of `Response` (`success`, `error`, `eval_result`) as it is serialized. A response carries no
tag: what it is shows in its fields. Reading tries the kinds of response in a fixed order and takes
the first one whose fields are all there and of the right type; other keys are ignored.

Left out: what the library says about a text that is no response.
-/

namespace MachineMonitor

open Json (Value Members)

/-- What the server answers. -/
inductive Response where
  | evalResult (value : UInt32) (hex : String)
  | watch (id : WatchpointId) (value : UInt32) (expr : String)
  | watches (watchpoints : List Watchpoint)
  | changes (found : List WatchChange)
  | registers (values : List RegisterValue)
  | memory (words : List MemoryWord)
  | success (ok : Bool)
  | error (message : String)
  deriving DecidableEq, Repr

namespace Response

/-- The answer to a request that changes something and has nothing to tell. -/
def done : Response := success true

/-- A word in hexadecimal, with as many digits as a word can need. -/
def hexWord (value : UInt32) : String :=
  let digits := Nat.toDigits 16 value.toNat
  String.ofList ('0' :: 'x' :: (List.replicate (8 - digits.length) '0' ++ digits))

/-- The answer with the value of an expression. -/
def ofValue (value : UInt32) : Response := evalResult value (hexWord value)

/-! ### Writing -/

/-- The fields of a response. -/
def fields : Response → List (String × Value)
  | evalResult value hex => [("value", .natural value.toNat), ("hex", .text hex)]
  | watch id value expr =>
    [("id", .natural id.toNat), ("value", .natural value.toNat), ("expr", .text expr)]
  | watches watchpoints => [("watchpoints", .array (watchpoints.map Watchpoint.toJson))]
  | changes found => [("changes", .array (found.map WatchChange.toJson))]
  | registers values => [("registers", .array (values.map RegisterValue.toJson))]
  | memory words => [("words", .array (words.map MemoryWord.toJson))]
  | success ok => [("ok", .bool ok)]
  | error message => [("error", .text message)]

/-- The text of a response that stands alone. -/
def print (r : Response) : String := (Value.ofFields r.fields).print

/-! ### Reading -/

/-- Reads the value of an expression. -/
def evalResult? (members : Members) : Option Response := do
  let value ← members.required? "value" Value.word?
  let hex ← members.required? "hex" Value.string?
  return evalResult value hex

/-- Reads the answer to a new watchpoint. -/
def watch? (members : Members) : Option Response := do
  let id ← members.required? "id" Value.word?
  let value ← members.required? "value" Value.word?
  let expr ← members.required? "expr" Value.string?
  return watch id value expr

/-- Reads a list of watchpoints. -/
def watches? (members : Members) : Option Response :=
  (members.required? "watchpoints" (Value.list? Watchpoint.ofJson?)).map watches

/-- Reads a list of changes. -/
def changes? (members : Members) : Option Response :=
  (members.required? "changes" (Value.list? WatchChange.ofJson?)).map changes

/-- Reads a list of registers. -/
def registers? (members : Members) : Option Response :=
  (members.required? "registers" (Value.list? RegisterValue.ofJson?)).map registers

/-- Reads a list of memory words. -/
def memory? (members : Members) : Option Response :=
  (members.required? "words" (Value.list? MemoryWord.ofJson?)).map memory

/-- Reads an answer that has nothing to tell. -/
def success? (members : Members) : Option Response :=
  (members.required? "ok" Value.bool?).map success

/-- Reads an error. -/
def error? (members : Members) : Option Response :=
  (members.required? "error" Value.string?).map error

/-- The kinds of response in the order in which they are tried. -/
def readers : List (Members → Option Response) :=
  [evalResult?, watch?, watches?, changes?, registers?, memory?, success?, error?]

/-- Reads a response from the members of an object. -/
def ofMembers? (members : Members) : Option Response := readers.findSome? (· members)

/-- Reads a response that stands alone. -/
def ofJson? : Value → Option Response
  | .object members => ofMembers? members
  | _ => none

/-- Reads the text of a response that stands alone. All of it must be readable. -/
def parse? (input : String) : Option Response := do
  let v ← Value.parse? input
  guard (v.isReadable Value.maxLevels)
  ofJson? v

end Response

end MachineMonitor
