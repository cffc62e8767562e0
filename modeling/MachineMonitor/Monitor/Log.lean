import MachineMonitor.Monitor

/-!
# What the monitor logs

Model of what `Lexer`, `Monitor` and `WatchpointPool` trace. Each request leaves a list of events
that follows from the monitor before it. A lexeme is logged when it is looked at, so an expression
that is refused half-way leaves the lexemes up to there.

Left out: what the server traces about its lines and requests.
-/

namespace MachineMonitor

/-- Something worth a line in the log. -/
inductive LogEvent where
  | matched (lexeme : Expr.Lexeme)
  | created (id : WatchpointId) (expression : String) (value : UInt32)
  | released (id : WatchpointId)
  | changed (change : WatchChange)
  | clearing (count : Nat)
  deriving DecidableEq, Repr

namespace LogEvent

/-- A text in double quotes, with backslashes before backslashes and double quotes. -/
def quote (text : String) : String :=
  let escaped := text.toList.flatMap fun c => if c = '\\' ∨ c = '"' then ['\\', c] else [c]
  "\"" ++ String.ofList escaped ++ "\""

/-- The line of an event: its level and what happened. -/
def render : LogEvent → String
  | matched l =>
    let rule := s!"rules[{l.rule.index}] = {quote l.rule.pattern}"
    s!"TRACE match {rule} at position {l.position} with len {l.text.utf8ByteSize}: {l.text}"
  | created id expression value => s!"DEBUG watchpoint {id}: {expression} = {value}"
  | released id => s!"DEBUG released watchpoint {id}"
  | changed c =>
    s!"DEBUG watchpoint {c.id}: {c.expression} changed {c.oldValue} -> {c.newValue}"
  | clearing count => s!"DEBUG clearing {count} watchpoints"

end LogEvent

namespace Monitor

variable {τ : Type} [Target τ]

/-- The events of evaluating an expression. -/
def evaluateLog (m : Monitor τ) (expr : String) : List LogEvent :=
  (Expr.visited m.limits expr).map .matched

/-- The events of watching an expression. -/
def watchCreateLog (m : Monitor τ) (expr : String) : List LogEvent :=
  m.evaluateLog expr ++
    match m.watchCreate expr with
    | .ok ((id, value), _) => [.created id expr value]
    | .error _ => []

/-- The events of deleting a watchpoint. -/
def watchDeleteLog (m : Monitor τ) (id : WatchpointId) : List LogEvent :=
  match m.watchDelete id with
  | .ok _ => [.released id]
  | .error _ => []

/-- The events of evaluating expressions one by one up to the first failure. -/
def evaluateAllLog (m : Monitor τ) : List String → List LogEvent
  | [] => []
  | expr :: exprs =>
    m.evaluateLog expr ++
      match m.evaluate expr with
      | .ok _ => m.evaluateAllLog exprs
      | .error _ => []

/-- The events of a sweep: those of its evaluations, then the changes it reports. -/
def watchSweepLog (m : Monitor τ) : List LogEvent :=
  m.evaluateAllLog (m.watchList.map (·.expression)) ++
    match m.watchSweep with
    | .ok (changes, _) => changes.map .changed
    | .error _ => []

/-- The events of deleting all watchpoints. -/
def watchClearLog (m : Monitor τ) : List LogEvent := [.clearing m.pool.active.length]

end Monitor

end MachineMonitor
