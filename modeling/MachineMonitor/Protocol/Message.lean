import MachineMonitor.Protocol.Request
import MachineMonitor.Protocol.Response

/-!
# Messages

Model of `RpcMessage` as it is serialized, its content flattened into it. A message is an object
with the version of the protocol, an id and the fields of its content. It must be readable as a
whole. The version and the id are taken out before the content is read, so content that has an id of
its own does not find it.

Left out: what the library says about a text that is no message.
-/

namespace MachineMonitor

open Json (Value Members)

/-- A request or a response with the id that ties them together. -/
structure Message (α : Type) where
  version : String
  id : Option UInt64
  content : α
  deriving DecidableEq, Repr

namespace Message

variable {α : Type}

/-- The version of the protocol that is spoken. -/
def currentVersion : String := "2.0"

/-- A message in the current version. -/
def reply (id : UInt64) (content : α) : Message α := ⟨currentVersion, some id, content⟩

/-! ### Writing -/

/-- Writes an id. -/
def idToJson : Option UInt64 → Value
  | some id => .natural id.toNat
  | none => .null

/-- The text of a message, given the fields of its content. -/
def print (fields : α → List (String × Value)) (m : Message α) : String :=
  (Value.ofFields (("jsonrpc", .text m.version) :: ("id", idToJson m.id) ::
    fields m.content)).print

/-! ### Reading -/

/-- Reads an id. -/
def idOfJson? : Value → Option (Option UInt64)
  | .null => some none
  | v => v.size?.map fun n => some (UInt64.ofNat n)

/-- Reads a message from its members. -/
def ofMembers? (content? : Members → Option α) (members : Members) : Option (Message α) := do
  let version ← members.required? "jsonrpc" Value.string?
  let id ← members.withDefault? "id" none idOfJson?
  let content ← content? (members.without ["jsonrpc", "id"])
  return ⟨version, id, content⟩

/-- Reads the text of a message. -/
def parse? (content? : Members → Option α) (input : String) : Option (Message α) := do
  let v ← Value.parse? input
  guard (v.isReadable Value.maxLevels)
  match v with
  | .object members => ofMembers? content? members
  | _ => none

/-- Reads the text of a message with a request. -/
def parseRequest? (input : String) : Option (Message Request) := parse? Request.ofMembers? input

/-- Reads the text of a message with a response. -/
def parseResponse? (input : String) : Option (Message Response) := parse? Response.ofMembers? input

/-- The text of a message with a request. -/
def printRequest (m : Message Request) : String := m.print Request.fields

/-- The text of a message with a response. -/
def printResponse (m : Message Response) : String := m.print Response.fields

end Message

end MachineMonitor
