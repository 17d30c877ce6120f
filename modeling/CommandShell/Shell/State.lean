import CommandShell.Binding.Registry
import CommandShell.Value.Display

/-!
# `CommandShell.Shell.State` — the state of a shell

## Contents
- `Shell`, everything that an evaluation reads and changes, with its pure operations.
-/

namespace CommandShell

/-- A shell whose host keeps a state of type `σ`. -/
structure Shell (σ : Type) where
  config : Config
  registry : Registry σ := {}
  types : Conversions := .standard
  stack : CallStack := {}
  output : Channel
  /-- The nesting of the evaluations in progress. -/
  depth : Nat := 0
  memory : Memory σ

namespace Shell

variable {σ : Type}

/-- A shell without bindings. -/
def empty (config : Config) (host : σ) : Shell σ where
  config
  output := { capacity := config.maxOutputLines }
  memory := { host }

/-! ## Output -/

def emit (s : Shell σ) (severity : Severity) (text : String) : Shell σ :=
  { s with output := s.output.emit ⟨text, severity⟩ }

/-- Writes a failure to the output channel, unless that has been done. -/
def report (s : Shell σ) (e : ShellError) : Shell σ :=
  if e.isReported then s else s.emit .error e.message

def popLast? (s : Shell σ) : Option Line × Shell σ :=
  let (line, output) := s.output.popLast?
  (line, { s with output })

def drain (s : Shell σ) : List Line × Shell σ :=
  let (lines, output) := s.output.drain
  (lines, { s with output })

/-! ## Bindings and types -/

/-- Binds a name, replacing what was bound to it. There is no other shell when that is refused, since
    the registry is the same then. -/
def bind (s : Shell σ) (name : String) (b : Binding σ) : Except ShellError (Shell σ) :=
  match s.registry.register s.types name b with
  | (.ok (), registry) => .ok { s with registry }
  | (.error e, _) => .error e

/-- Removes the binding of a name. -/
def unbind (s : Shell σ) (name : String) : Shell σ :=
  { s with registry := s.registry.remove name }

def registerType (s : Shell σ) (type : ValueType) (parser : Parser) : Shell σ :=
  { s with types := s.types.register type parser }

/-- What is known of the binding of a name. -/
def profile? (s : Shell σ) (name : String) : Option (Profile σ) :=
  (s.registry.lookup? name).map (·.profile)

/-- What a command can see of the shell. -/
def view (s : Shell σ) : View σ where
  config := s.config
  frame := s.stack.current
  callDepth := s.stack.depth
  pending := s.output.size
  lookup := s.profile?
  visible := s.registry.visible.map fun entry => (entry.1, entry.2.profile)
  supports := s.types.supports
  memory := s.memory

end Shell

end CommandShell
