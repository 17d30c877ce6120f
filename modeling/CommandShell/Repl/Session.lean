import CommandShell.Config.Reader
import CommandShell.Demo.Player
import CommandShell.Shell.Host

/-!
# `CommandShell.Repl.Session` — an interactive session

A session reads lines, evaluates each of them, and prints what the shell has written: lines of output
to the standard output, warnings and errors to the standard error stream. A prompt is written before
every line is read. The words `quit` and `exit` end the session, as does the end of the input.

## Contents
- `Console`, what has been printed, and `Console.printLines`.
- `Repl.Ending`, the ways in which a session ends, with `Repl.Ending.exitCode`.
- `Repl.start` and `Repl.reply`, the two steps that a program performs with its streams.
- `Repl.session`, a whole session on given input.
-/

namespace CommandShell

/-! ## Printing -/

/-- What has been printed to the two output streams. -/
structure Console where
  output : String := ""
  errors : String := ""
deriving DecidableEq, Repr

namespace Console

/-- Prints a line of shell output to the stream that its severity asks for. -/
def printLine (c : Console) (line : Line) : Console :=
  match line.severity with
  | .normal => { c with output := c.output ++ line.text ++ "\n" }
  | .input => { c with output := c.output ++ "> " ++ line.text ++ "\n" }
  | .warning => { c with errors := c.errors ++ "warning: " ++ line.text ++ "\n" }
  | .error => { c with errors := c.errors ++ "error: " ++ line.text ++ "\n" }

def printLines (c : Console) (lines : List Line) : Console :=
  lines.foldl printLine c

/-- Prints the prompt. -/
def prompt (c : Console) : Console :=
  { c with output := c.output ++ "> " }

end Console

/-! ## Steps -/

namespace Repl

/-- The configuration of a session: that of the file named on the command line, or the one that holds
    without any. -/
def configOf (file : Option (Option ByteArray)) : Except ShellError Config :=
  match file with
  | none => .ok {}
  | some content => do Config.ofToml (← textOfFile content)

/-- The shell of a session with the demo host, and the lines written while it started. -/
def start (overflow : Demo.Overflow) (config : Config) :
    Except ShellError (List Line × Shell Demo.Player) :=
  let shell := Shell.start config ({} : Demo.Player)
  match (Shell.bindDemo overflow Demo.Part.whole).run.run shell with
  | (.ok _, shell) => .ok shell.drain
  | (.error e, _) => .error e

/-- Whether a line asks for the end of the session. -/
def isFarewell (line : String) : Bool :=
  Text.equalIgnoringAsciiCase line "quit" || Text.equalIgnoringAsciiCase line "exit"

/-- What a line of input leads to. -/
inductive Reply where
  /-- The lines that its evaluation has written, and the shell after it. -/
  | answer (lines : List Line) (shell : Shell Demo.Player)
  /-- The end of the session. -/
  | farewell
  /-- Nothing, since the line is not text. -/
  | malformed
  /-- Nothing, since the program has ended in the middle of the evaluation. -/
  | panicked

/-- The reply to a line of input, which is evaluated without the blanks around it. -/
def reply (shell : Shell Demo.Player) (bytes : ByteArray) : Reply :=
  match String.fromUTF8? bytes with
  | none => .malformed
  | some line =>
      let text := Text.trim line
      if isFarewell text then .farewell
      else
        let shell := ((Shell.eval text).run shell).2
        if shell.memory.host.hasPanicked then .panicked
        else
          let (lines, shell) := shell.drain
          .answer lines shell

/-- How a session ends. -/
inductive Ending where
  | finished
  /-- The configuration or a line of input cannot be read. -/
  | failed
  | panicked
deriving DecidableEq, Repr

def Ending.exitCode : Ending → UInt32
  | .finished => 0
  | .failed => 1
  | .panicked => 101

/-! ## Whole sessions -/

/-- The lines of an input, each with the line feed that ends it. -/
def inputLines (bytes : List UInt8) : List (List UInt8) :=
  bytes.foldr (fun b lines =>
    match lines with
    | [] => [[b]]
    | first :: rest => if b = 10 then [b] :: first :: rest else (b :: first) :: rest) []

/-- A session from its first prompt on. What an evaluation has written when the program ends is never
    printed. -/
def converse (shell : Shell Demo.Player) (console : Console) : List (List UInt8) → Ending × Console
  | [] => (.finished, console.prompt.printLines shell.output.lines)
  | bytes :: rest =>
      match reply shell ⟨bytes.toArray⟩ with
      | .answer lines shell => converse shell (console.prompt.printLines lines) rest
      | .farewell => (.finished, console.prompt.printLines shell.output.lines)
      | .malformed => (.failed, console.prompt)
      | .panicked => (.panicked, console.prompt)

/-- A whole session under a configuration file on an input. -/
def session (overflow : Demo.Overflow) (file : Option (Option ByteArray)) (input : List UInt8) :
    Ending × Console :=
  match configOf file >>= start overflow with
  | .error _ => (.failed, {})
  | .ok (lines, shell) => converse shell (Console.printLines {} lines) (inputLines input)

end Repl
end CommandShell
