import MachineMonitor.Json.Decode
import MachineMonitor.Json.Parser
import MachineMonitor.Json.Printer
import MachineMonitor.Target
import MachineMonitor.Watch.Pool

/-!
# Requests

Model of `Request` as it is serialized, adjacently tagged by `method` and `params`. A request names
a method and, where the method has parameters, an object with them. Keys that mean nothing are
ignored. A request may stand alone or be the content of a message: alone it may also be an array of
the method's name and the parameters, and what it ignores need only be well-formed.

Left out: what the library says about a text that is no request.
-/

namespace MachineMonitor

open Json (Value Members)

/-- What a front end may ask for. -/
inductive Method where
  | eval | watch | delete | watches | sweep | clear | registers | scan | setRegister | writeMemory
  | shutdown
  deriving DecidableEq, Repr

namespace Method

/-- All methods. -/
def all : List Method :=
  [eval, watch, delete, watches, sweep, clear, registers, scan, setRegister, writeMemory, shutdown]

/-- The name of a method in a request. -/
def name : Method → String
  | eval => "eval"
  | watch => "watch"
  | delete => "delete"
  | watches => "watches"
  | sweep => "sweep"
  | clear => "clear"
  | registers => "registers"
  | scan => "scan"
  | setRegister => "set_register"
  | writeMemory => "write_memory"
  | shutdown => "shutdown"

/-- The method with this name. -/
def ofName? (name : String) : Option Method := all.find? (·.name == name)

/-- Reads a method that is written as its name. -/
def ofText? : Value → Option Method
  | .string (some name) => ofName? name
  | _ => none

/-- Reads a method: its name, or an object with its name as only key, over null. -/
def ofJson? : Value → Option Method
  | .object [(some name, .null)] => ofName? name
  | v => ofText? v

/-- Reads the method of a request in a message, where an empty object may stand for null. -/
def ofContent? : Value → Option Method
  | .object [(some name, .object [])] => ofName? name
  | v => ofJson? v

end Method

/-- A request with its parameters. -/
inductive Request where
  | eval (expr : String)
  | watch (expr : String)
  | delete (id : WatchpointId)
  | watches
  | sweep
  | clear
  | registers
  | scan (count : UInt32) (addr : String)
  | setRegister (name : String) (value : UInt32)
  | writeMemory (address value width : UInt32)
  | shutdown
  deriving DecidableEq, Repr

namespace Request

/-! ### Writing -/

/-- The method of a request. -/
def method : Request → Method
  | eval _ => .eval
  | watch _ => .watch
  | delete _ => .delete
  | watches => .watches
  | sweep => .sweep
  | clear => .clear
  | registers => .registers
  | scan _ _ => .scan
  | setRegister _ _ => .setRegister
  | writeMemory _ _ _ => .writeMemory
  | shutdown => .shutdown

/-- The parameters of a request, if its method has any. -/
def params? : Request → Option (List (String × Value))
  | eval expr => some [("expr", .text expr)]
  | watch expr => some [("expr", .text expr)]
  | delete id => some [("id", .natural id.toNat)]
  | scan count addr => some [("count", .natural count.toNat), ("addr", .text addr)]
  | setRegister name value => some [("name", .text name), ("value", .natural value.toNat)]
  | writeMemory address value width =>
    some [("address", .natural address.toNat), ("value", .natural value.toNat),
      ("width", .natural width.toNat)]
  | watches | sweep | clear | registers | shutdown => none

/-- The fields of a request. -/
def fields (r : Request) : List (String × Value) :=
  ("method", .text r.method.name) ::
    match r.params? with
    | some params => [("params", .ofFields params)]
    | none => []

/-- The text of a request that stands alone. -/
def print (r : Request) : String := (Value.ofFields r.fields).print

/-! ### Reading -/

/-- A request without parameters, for which null may stand. -/
def bare? (r : Request) : Option Value → Option Request
  | none | some .null => some r
  | some _ => none

/-- Reads the parameters of a method that has some. -/
def members? : Option Value → Option Members
  | some (.object members) => if Members.haveKeys members then some members else none
  | _ => none

/-- Reads the parameters of a method. -/
def ofParams? (method : Method) (params : Option Value) : Option Request :=
  match method with
  | .eval => do
    let members ← members? params
    return eval (← members.required? "expr" Value.string?)
  | .watch => do
    let members ← members? params
    return watch (← members.required? "expr" Value.string?)
  | .delete => do
    let members ← members? params
    return delete (← members.required? "id" Value.word?)
  | .watches => watches.bare? params
  | .sweep => sweep.bare? params
  | .clear => clear.bare? params
  | .registers => registers.bare? params
  | .scan => do
    let members ← members? params
    return scan (← members.required? "count" Value.word?)
      (← members.required? "addr" Value.string?)
  | .setRegister => do
    let members ← members? params
    return setRegister (← members.required? "name" Value.string?)
      (← members.required? "value" Value.word?)
  | .writeMemory => do
    let members ← members? params
    return writeMemory (← members.required? "address" Value.word?)
      (← members.required? "value" Value.word?)
      (← members.withDefault? "width" wordBytes Value.word?)
  | .shutdown => shutdown.bare? params

/-- Reads a request from the members of a message. -/
def ofMembers? (members : Members) : Option Request := do
  let method ← members.required? "method" Method.ofContent?
  let params ← members.optional? "params"
  ofParams? method params

/-- Are the parameters readable, should they have to be kept until the method is known? -/
def areParamsReadable (members : Members) : Bool :=
  match members.find? fun (key, _) => key == some "method" || key == some "params" with
  | some (some "params", params) => params.isReadable (Value.maxLevels - 1)
  | _ => true

/-- Reads a request that stands alone. -/
def ofJson? : Value → Option Request
  | .object members => do
    guard (Members.haveKeys members && areParamsReadable members)
    let method ← Members.required? members "method" Method.ofJson?
    let params ← Members.optional? members "params"
    ofParams? method params
  | .array [method, params] => do
    let method ← Method.ofText? method
    ofParams? method (some params)
  | _ => none

/-- Reads the text of a request that stands alone. -/
def parse? (input : String) : Option Request := Value.parse? input >>= ofJson?

end Request

end MachineMonitor
