import MachineMonitor.Config
import MachineMonitor.Protocol.Message

/-!
# Sessions

Model of `Handler` and `describe`. A session answers requests one after the other. Each request
becomes an operation of the monitor or of its machine; one that fails is answered with an error and
changes nothing.

* An answer is `none` where `Handler::handle` does not return, because the caret under a failure
  stands too far right. The session is then as it was.

Left out: what is traced about a request. Idealised: memory and stack are unbounded.

Results:
* `handle_shutdown`: asking for the end changes nothing by itself.
-/

namespace MachineMonitor

/-- What a session keeps between requests. -/
abbrev Session := Monitor Machine

namespace Session

/-- The session at the start. -/
def ofConfig (c : Config) : Except MachineError Session := do
  return Monitor.ofConfig (← c.buildMachine) c

/-! ### Texts -/

/-- The text shown for an expression that has no value. Where no token matches, the place is marked,
if it can be. -/
def describe? (e : Expr.EvalError) (expr : String) : Option String :=
  match e with
  | .lex (.noMatch position) => Expr.LexError.render? (.noMatch position) expr
  | e => some e.message

/-- The register that a request names: one leading dollar sign may be left out, but it belongs to
the name of the zero register. -/
def registerName (name : String) : String :=
  match name.toList with
  | '$' :: cs => if cs = [] ∨ cs = ['0'] then name else String.ofList cs
  | _ => name

/-! ### Requests -/

/-- Answers a request. There is no answer if the text of a failure cannot be made. -/
def handle (s : Session) : Request → Option Response × Session
  | .eval expr =>
    match s.evaluate expr with
    | .ok value => (some (.ofValue value), s)
    | .error e => ((describe? e expr).map .error, s)
  | .watch expr =>
    match s.watchCreate expr with
    | .ok ((id, value), s') => (some (.watch id value expr), s')
    | .error e => (some (.error e.message), s)
  | .delete id =>
    match s.watchDelete id with
    | .ok s' => (some .done, s')
    | .error e => (some (.error e.message), s)
  | .watches => (some (.watches s.watchList), s)
  | .sweep =>
    match s.watchSweep with
    | .ok (changes, s') => (some (.changes changes), s')
    | .error e => (some (.error s!"Invalid watch expression: {e.message}"), s)
  | .clear => (some .done, s.watchClear)
  | .registers => (some (.registers s.registers), s)
  | .scan count addr =>
    match s.scanMemory count addr with
    | .ok words => (some (.memory words), s)
    | .error e => ((describe? e addr).map .error, s)
  | .setRegister name value =>
    match s.target.setRegister (registerName name) value with
    | .ok m => (some .done, { s with target := m })
    | .error e => (some (.error e.message), s)
  | .writeMemory address value width =>
    match s.target.writeMemory address width value with
    | .ok m => (some .done, { s with target := m })
    | .error e => (some (.error e.message), s)
  | .shutdown => (some .done, s)

theorem handle_shutdown (s : Session) : s.handle .shutdown = (some .done, s) := rfl

/-- Answers a message; the answer has the id of the message, or zero if it has none. -/
def reply (s : Session) (m : Message Request) : Option (Message Response) × Session :=
  let (response, s') := s.handle m.content
  (response.map (.reply (m.id.getD 0)), s')

end Session

end MachineMonitor
