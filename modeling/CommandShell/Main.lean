import CommandShell.Repl.Session

/-!
# `CommandShell.Main` — the interactive program

Reads statements from the standard input, one line at a time. A configuration file is named by the
first argument or, without arguments, by the environment variable `EMBER_CONFIG`. Sums are checked, as in
a build for development.
-/

namespace CommandShell
namespace Repl

/-- Prints to both streams what a session has printed. -/
def flush (console : Console) : IO Unit := do
  let output ← IO.getStdout
  output.putStr console.output
  output.flush
  (← IO.getStderr).putStr console.errors

/-- The content of a file, or `none` when it cannot be read. -/
def contentOf (path : String) : IO (Option ByteArray) := do
  try
    return some (← IO.FS.readBinFile path)
  catch _ =>
    return none

/-- Reads the rest of a line with the line feed that ends it, behind the part already read. -/
partial def readLine (input : IO.FS.Stream) (front : ByteArray) : IO ByteArray := do
  let next ← input.read 1
  if next.isEmpty then return front
  if next.toList = [10] then return front ++ next
  readLine input (front ++ next)

/-- Reads and evaluates lines until the session ends. -/
partial def loop (shell : Shell Demo.Player) : IO UInt32 := do
  flush (Console.prompt {})
  let line ← readLine (← IO.getStdin) .empty
  match if line.isEmpty then .farewell else reply shell line with
  | .answer lines shell =>
      flush (Console.printLines {} lines)
      loop shell
  | .farewell =>
      flush (Console.printLines {} shell.output.lines)
      return Ending.finished.exitCode
  | .malformed =>
      IO.eprintln "Error: stream did not contain valid UTF-8"
      return Ending.failed.exitCode
  | .panicked =>
      IO.eprintln "attempt to add with overflow"
      return Ending.panicked.exitCode

/-- Runs a session on the standard streams. -/
def program (arguments : List String) : IO UInt32 := do
  let path ← match arguments with
    | path :: _ => pure (some path)
    | [] => IO.getEnv "EMBER_CONFIG"
  match configOf (← path.mapM contentOf) >>= start .panics with
  | .error e =>
      IO.eprintln ("Error: " ++ e.message)
      return Ending.failed.exitCode
  | .ok (lines, shell) =>
      flush (Console.printLines {} lines)
      loop shell

end Repl
end CommandShell

def main (arguments : List String) : IO UInt32 :=
  CommandShell.Repl.program arguments
