import MachineMonitor.Server

/-!
# The program

Model of `main` and `load_config` of `rvwatch-server`. Reads requests from standard input and writes
answers to standard output, one per line. The environment may name a configuration file.

Left out: what is traced to standard error, and what the JSON parser says about a line that is no
message, for which one text stands.
-/

namespace MachineMonitor.Main

/-- The environment variable that names the configuration file. -/
def configVariable : String := "RVWATCH_CONFIG"

/-- Finds the configuration file. -/
def findConfig : IO Server.ConfigFile := do
  match ← IO.getEnv configVariable with
  | none => return .unset
  | some path =>
    try
      return .file (some (← IO.FS.readBinFile path))
    catch _ => return .file none

/-- Reads bytes up to a line feed or the end of the input. -/
partial def readLine (input : IO.FS.Stream) (begun : List UInt8) : IO (List UInt8) := do
  match (← input.read 1).toList with
  | [] => return begun.reverse
  | b :: _ =>
    let begun := b :: begun
    if b = Server.lineFeed then return begun.reverse else readLine input begun

/-- What is said about a line that is no message. -/
def explain (_ : String) : String := "not a request"

/-- Answers lines until the input ends or the session does. -/
partial def loop (input output : IO.FS.Stream) (s : Session) : IO Server.Stage := do
  let bytes ← readLine input []
  match Server.lines bytes with
  | [] => return .serving s
  | line :: _ =>
    let (written, next) := Server.step explain s line
    if let some text := written then
      output.putStrLn text
      output.flush
    match next with
    | .serving s' => loop input output s'
    | stage => return stage

/-- Runs the server; the result is the exit code. -/
def serve : IO UInt32 := do
  match Server.start (← findConfig) with
  | .error e =>
    IO.eprintln s!"Error: {e.message}"
    return 1
  | .ok s =>
    let last ← loop (← IO.getStdin) (← IO.getStdout) s
    return last.exitCode

end MachineMonitor.Main

def main : IO UInt32 := MachineMonitor.Main.serve
