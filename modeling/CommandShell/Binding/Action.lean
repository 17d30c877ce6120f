import CommandShell.Binding.Profile
import CommandShell.Call.Args
import CommandShell.Call.Frame
import CommandShell.Config.Basic
import CommandShell.Conversion.Parse
import CommandShell.Output.Channel

/-!
# `CommandShell.Binding.Action` — what a command does

A command acts on the shell by one request at a time and goes on with the answer. The requests are
the public operations of a shell and nothing else, so what holds of every request holds of every
command.

## Contents
- `View`, what a command can see of the shell at a moment.
- `Action`, the tree of requests.
- `Script`, commands in `do` notation, and one script for each request.
-/

namespace CommandShell

/-- What a command can see of the shell. -/
structure View (σ : Type) where
  config : Config
  /-- The frame of the innermost call. -/
  frame : Except ShellError Frame
  callDepth : Nat
  /-- The number of lines waiting in the output channel. -/
  pending : Nat
  lookup : String → Option (Profile σ)
  /-- The bindings that are not hidden, in order of their names. -/
  visible : List (String × Profile σ)
  supports : ValueType → Bool
  memory : Memory σ

/-- A command in progress: its end, or a request together with what follows each answer. -/
inductive Action (σ : Type) where
  /-- The command ends with a failure or with an answer, if it has one. -/
  | done (result : Except ShellError (Option Value))
  | inspect (next : View σ → Action σ)
  /-- Changes the memory. -/
  | update (change : Memory σ → Memory σ) (next : Action σ)
  | emit (line : Line) (next : Action σ)
  | popLast (next : Option Line → Action σ)
  | drain (next : List Line → Action σ)
  /-- Evaluates a text one level deeper. A failure has been reported when it comes back. -/
  | evalBlock (text : String) (next : Except ShellError Unit → Action σ)
  /-- Evaluates a text one level deeper and takes its last line as its result. -/
  | resolve (expression : String) (next : Except ShellError String → Action σ)
  /-- Converts an argument of the current frame for a parameter. -/
  | fetch (index : Nat) (param : Param) (next : Except ShellError Value → Action σ)
  | convert (type : ValueType) (text : String) (next : Except ParseFailure Value → Action σ)
  | bind (name : String) (profile : Profile σ) (body : Args → Action σ)
      (next : Except ShellError Unit → Action σ)
  | unbind (name : String) (next : Option (Profile σ) → Action σ)
  | registerType (type : ValueType) (parser : Parser) (next : Action σ)

/-! ## Scripts -/

/-- A part of a command: given what follows its result, the action of both together. -/
def Script (σ α : Type) : Type :=
  (α → Action σ) → Action σ

namespace Script

variable {σ α : Type}

instance : Monad (Script σ) where
  pure a := fun next => next a
  bind s f := fun next => s fun a => f a next

/-- Ends the command with a failure. -/
def fail (e : ShellError) : Script σ α :=
  fun _ => .done (.error e)

/-- Goes on with a result, or ends the command with its failure. -/
def ofExcept : Except ShellError α → Script σ α
  | .ok a => pure a
  | .error e => fail e

instance : MonadLift (Except ShellError) (Script σ) where
  monadLift := ofExcept

/-- The command whose last step is the end of a script. -/
def toAction (s : Script σ (Option Value)) : Action σ :=
  s fun v => .done (.ok v)

/-! ## Requests -/

def view : Script σ (View σ) :=
  Action.inspect

def update (change : Memory σ → Memory σ) : Script σ Unit :=
  fun next => .update change (next ())

def emit (severity : Severity) (text : String) : Script σ Unit :=
  fun next => .emit ⟨text, severity⟩ (next ())

def popLast : Script σ (Option Line) :=
  Action.popLast

def drain : Script σ (List Line) :=
  Action.drain

/-- Evaluates a text one level deeper and passes its failure on. -/
def evalBlock (text : String) : Script σ Unit :=
  fun next => .evalBlock text fun r => ofExcept r next

/-- Evaluates a text one level deeper and says whether that succeeded. -/
def eval (text : String) : Script σ Bool :=
  fun next => .evalBlock text fun r => next r.toBool

def fetch (index : Nat) (param : Param) : Script σ Value :=
  fun next => .fetch index param fun r => ofExcept r next

def convert (type : ValueType) (text : String) : Script σ (Except ParseFailure Value) :=
  Action.convert type text

def unbind (name : String) : Script σ (Option (Profile σ)) :=
  Action.unbind name

/-- Makes a cell and answers with its name. -/
def newCell (v : Value) : Script σ Nat := do
  let index := (← view).memory.cells.size
  update (·.addCell v)
  return index

/-- The frame of the call itself. -/
def frame : Script σ Frame := do
  (← view).frame

/-- What is bound to a name; a name that is not bound ends the command. -/
def lookup (name : String) : Script σ (Profile σ) := do
  match (← view).lookup name with
  | some profile => return profile
  | none => fail (.undefinedLocal name)

end Script
end CommandShell
