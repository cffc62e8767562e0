import MachineMonitor.Config.Toml
import MachineMonitor.Session
import MachineMonitor.Text.Blank

/-!
# The server

Model of the program of `rvwatch-server`: `load_config`, the loop of `main` over the lines of its
input, and the code it exits with. The server reads lines and answers each one that is UTF-8 and not
blank with one line, until it is asked to end. Lines end in a line feed, which a carriage return may
stand before.

* `Stage.broken` is the end of a program that panics. Nothing catches a panic, so a request that has
  no answer ends the server.
* `explain` is what the JSON parser says about a text that is no message. It is a parameter, of
  which nothing is assumed.

Left out: what is traced. Idealised: reading and writing succeed, and memory is unbounded.

Results:
* `run_blank`: a line that asks nothing leaves no trace.
-/

namespace MachineMonitor.Server

/-! ### Lines of bytes -/

/-- The byte that ends a line. -/
def lineFeed : UInt8 := 0x0A

/-- The byte that may stand before the end of a line. -/
def carriageReturn : UInt8 := 0x0D

/-- Drops a carriage return at the end. -/
def dropReturn (line : List UInt8) : List UInt8 :=
  if line.getLast? = some carriageReturn then line.dropLast else line

/-- The lines of a text, given the beginning of the first one, last byte first. Bytes after the last
line feed make a line too, and keep a carriage return at their end. -/
def linesFrom (begun : List UInt8) : List UInt8 → List (List UInt8)
  | [] => if begun = [] then [] else [begun.reverse]
  | b :: bs =>
    if b = lineFeed then dropReturn begun.reverse :: linesFrom [] bs else linesFrom (b :: begun) bs

/-- The lines of a text. -/
def lines (input : List UInt8) : List (List UInt8) := linesFrom [] input

/-! ### Answers -/

/-- How far the server is: it serves a session, or has ended as it was asked to, or is broken. -/
inductive Stage where
  | serving (s : Session)
  | ended
  | broken

/-- The code with which the server exits if its input ends here. -/
def Stage.exitCode : Stage → UInt32
  | serving _ | ended => 0
  | broken => 101

/-- The request line that some bytes hold: they must be UTF-8 and not blank. -/
def requestLine? (line : List UInt8) : Option String := do
  let s ← String.fromUTF8? ⟨line.toArray⟩
  if Text.isBlank s then none else some s

section Explained

variable (explain : String → String)

/-- The answer to a line that is no message. -/
def refusal (line : String) : Message Response :=
  .reply 0 (.error ("Parse error: " ++ explain line))

/-- Answers a request line: the answer, if there is one, and how the server goes on. -/
def answer (s : Session) (line : String) : Option (Message Response) × Stage :=
  match Message.parseRequest? line with
  | none => (some (refusal explain line), .serving s)
  | some m =>
    match s.reply m with
    | (none, _) => (none, .broken)
    | (some response, s') =>
      (some response, if m.content = .shutdown then .ended else .serving s')

/-- Takes one line: the line to write, if any, and how the server goes on. -/
def step (s : Session) (line : List UInt8) : Option String × Stage :=
  match requestLine? line with
  | none => (none, .serving s)
  | some request =>
    let (response, next) := answer explain s request
    (response.map Message.printResponse, next)

/-- The lines written for some lines, and how far the server is then. It reads no more lines once it
has ended or is broken. -/
def run (s : Session) : List (List UInt8) → List String × Stage
  | [] => ([], .serving s)
  | line :: rest =>
    match step explain s line with
    | (output, .serving s') =>
      let (outputs, last) := run s' rest
      (output.toList ++ outputs, last)
    | (output, stage) => (output.toList, stage)

theorem run_blank {s : Session} {line : List UInt8} {rest : List (List UInt8)}
    (h : requestLine? line = none) :
    run explain s (line :: rest) = run explain s rest := by
  simp [run, step, h]

end Explained

/-! ### Starting -/

/-- Where the configuration comes from: nowhere, or a file, given the bytes of the file if it can be
opened. -/
inductive ConfigFile where
  | unset
  | file (content : Option ByteArray)

/-- The configuration that the server starts with. -/
def loadConfig : ConfigFile → Except ConfigError Config
  | .unset => .ok {}
  | .file content => Config.load content

/-- The session that the server starts with. -/
def start (config : ConfigFile) : Except ConfigError Session :=
  match loadConfig config with
  | .error e => .error e
  | .ok c =>
    match Session.ofConfig c with
    | .error e => .error (.machine e)
    | .ok s => .ok s

end MachineMonitor.Server
