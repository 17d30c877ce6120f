import CommandShell.Builtin.All
import CommandShell.Shell.Evaluate

/-!
# `CommandShell.Shell.Host` — the operations that a host calls

A host builds a shell, submits texts to it and takes the lines it writes. All other operations of a
shell, such as binding names, are pure functions on its state and stand with it.

## Contents
- `Shell.evalBlock` and `Shell.eval`, evaluation with and without the failure itself.
- `Shell.resolve`, `Shell.fetch` and `Shell.convert`, the ways from text to values.
- `Shell.bindAll` and `Shell.start`, the shell that a configuration describes.
-/

namespace CommandShell
namespace Shell

variable {σ : Type}

/-! ## Evaluation -/

/-- Evaluates a text at the current level. A failure has been reported when it comes back. -/
def evalBlock (text : String) : Eval σ Unit := do
  let s ← get
  Eval.evaluateWithin (s.config.maxDepth - s.depth) text

/-- Evaluates a line of input and says whether all of it succeeded. A line that is submitted from
    outside is shown first when the configuration asks for it. -/
def eval (text : String) : StateM (Shell σ) Bool := do
  modify fun s => if s.config.echoInput && s.depth == 0 then s.emit .input text else s
  return (← (evalBlock text).run).toBool

/-- The result of an expression. -/
def resolve (expression : String) : Eval σ String :=
  Eval.subEvaluate evalBlock expression

/-- Converts an argument of the innermost call for a parameter. -/
def fetch (index : Nat) (param : Param) : Eval σ Value :=
  Eval.fetch evalBlock index param

/-- Converts a text to a type, evaluating the sub-evaluations inside it. -/
def convert (type : ValueType) (text : String) : Eval σ (Except ParseFailure Value) := do
  let s ← get
  Eval.convert evalBlock (s.types.parse type text)

/-! ## Construction -/

/-- Binds names in order. A refusal is handled by `refused`, and the names behind it are bound all the
    same. -/
def bindAll (refused : Shell σ → ShellError → Shell σ) (s : Shell σ)
    (bindings : List (String × Binding σ)) : Shell σ :=
  bindings.foldl (fun s entry =>
    match s.bind entry.1 entry.2 with
    | .ok s' => s'
    | .error e => refused s e) s

/-- The shell with the built-in commands and the configured aliases. -/
def configured (config : Config) (host : σ) : Shell σ :=
  let commands := if config.builtins then Builtin.all.map fun c => (c.name, c.toBinding) else []
  let aliases := config.aliases.map fun entry => (entry.1, Binding.ofAlias entry.2)
  ((empty config host).bindAll (fun s _ => s) commands).bindAll report aliases

/-- The shell that a configuration describes, after its start-up statements. A statement that fails
    leaves its report and does not keep the later ones from running. -/
def start (config : Config) (host : σ) : Shell σ :=
  ((config.startup.forM fun text => discard (eval text)).run (configured config host)).2

end Shell
end CommandShell
