import CommandShell.Scan.Statement
import CommandShell.Shell.Eval

/-!
# `CommandShell.Shell.Evaluate` — the evaluator

A text is evaluated statement by statement. The tokens of a statement are resolved from left to right,
a sub-evaluation by evaluating it and taking its last line; the first one names a binding and the
others are its arguments. The binding is called with its parameters converted, and what it answers is
written to the output channel. The first failure ends the evaluation and is reported there once, at
the level where it arose.

Evaluations nest through sub-evaluations, through elements of array literals and through commands that
evaluate texts themselves. The levels still allowed are the argument of the recursion: every step
below is stated for an evaluator of the next level, and `evaluateWithin` ties them together.

## Contents
- `subEvaluate`, `resolveToken`, `convert` and `fetch`: how texts become arguments.
- `perform`, the effect of the requests of a command.
- `prepare`, `enter` and `dispatch`: one call.
- `runStatement`, `runProgram` and `evaluateWithin`.
-/

namespace CommandShell
namespace Eval

variable {σ : Type}

section Level

-- `nested` is the evaluator of the next level.
variable (nested : String → Eval σ Unit)

/-! ## Arguments -/

/-- Evaluates an expression and takes the last line of its output as the result. An expression that
    writes nothing has no result, whatever lines were waiting before. -/
def subEvaluate (expression : String) : Eval σ String := do
  let start ← get
  nested expression
  let s ← get
  if s.output.emitted = start.output.emitted then throw (.voidReturn expression)
  note (.take expression start)
  match s.popLast? with
  | (some line, s') =>
      set s'
      return line.text
  | (none, _) => throw (.voidReturn expression)

/-- The argument that a token stands for. -/
def resolveToken (t : Token) : Eval σ Argument :=
  match t.kind with
  | .subEval => return ⟨← subEvaluate nested t.text, .subEval⟩
  | .literal => return ⟨t.text, .literal⟩
  | .blank => return ⟨t.text, .literal⟩

/-- The result of a conversion whose sub-evaluations are answered by the shell. -/
def convert (p : Parse Value) : Eval σ (Except ParseFailure Value) :=
  p.run fun expression => attempt (subEvaluate nested expression)

/-- The failure of a call whose argument does not convert. The command that returned a text is at
    fault for it, and the caller for a text that was written. -/
def argumentFailure (frame : Frame) (index : Nat) (param : Param) (origin : Origin) :
    ParseFailure → ShellError
  | .resolution e => e
  | f =>
      if origin = .subEval ∨ f.isReturned then
        .returnType frame.name index param.type.name f.message
      else .argumentType frame.name index param.name param.type.name f.message

/-- The value of a parameter that has no argument. -/
def missing (frame : Frame) (index : Nat) (param : Param) : Except ShellError Value :=
  if param.isOptional then .ok (param.default?.getD .null)
  else if param.type.isNullable then .ok .null
  else .error (.requiredArgument frame.name index param.name)

/-- Converts an argument of the current frame for a parameter. -/
def fetch (index : Nat) (param : Param) : Eval σ Value := do
  let s ← get
  let frame ← s.stack.current
  match frame.arguments[index]? with
  | none => missing frame index param
  | some argument =>
      match s.types.parserFor? param.type with
      | none => throw (.unsupportedType frame.name param.name param.type.name)
      | some parser =>
          match ← convert nested (parser argument.text) with
          | .ok v => return v
          | .error f => throw (argumentFailure frame index param argument.origin f)

/-- Converts the arguments of the current frame for parameters of which the first has the given
    index. -/
def fetchFrom (index : Nat) : List Param → Eval σ (List Value)
  | [] => return []
  | param :: params => do
      let v ← fetch nested index param
      let vs ← fetchFrom (index + 1) params
      return v :: vs

/-! ## Commands -/

/-- Carries out the requests of a command. -/
def perform : Action σ → Eval σ (Option Value)
  | .done result => liftM result
  | .inspect next => do perform (next (← get).view)
  | .update change next => do
      modify fun s => { s with memory := change s.memory }
      perform next
  | .emit line next => do
      modify fun s => { s with output := s.output.emit line }
      perform next
  | .popLast next => do
      let (line, s) := (← get).popLast?
      set s
      perform (next line)
  | .drain next => do
      let (lines, s) := (← get).drain
      set s
      perform (next lines)
  | .evalBlock text next => do perform (next (← attempt (nested text)))
  | .resolve expression next => do perform (next (← attempt (subEvaluate nested expression)))
  | .fetch index param next => do perform (next (← attempt (fetch nested index param)))
  | .convert type text next => do
      let types := (← get).types
      perform (next (← convert nested (types.parse type text)))
  | .bind name profile body next => do
      match (← get).bind name ⟨profile, body⟩ with
      | .ok s =>
          set s
          perform (next (.ok ()))
      | .error e => perform (next (.error e))
  | .unbind name next => do
      let profile? := (← get).profile? name
      modify (·.unbind name)
      perform (next profile?)
  | .registerType type parser next => do
      modify (·.registerType type parser)
      perform next

/-! ## Calls -/

/-- Finds the binding of a name and converts the arguments of the current frame for it. A binding whose
    target no longer exists is removed instead; that is decided before the first argument is
    converted. -/
def prepare (name : String) : Eval σ (Binding σ × Args) := do
  let s ← get
  match s.registry.lookup? name with
  | none => throw (.undefinedLocal name)
  | some b =>
      if b.profile.isAlive s.memory then
        return (b, ⟨← fetchFrom nested 0 b.profile.params⟩)
      else
        modify (·.unbind name)
        throw (.invalidated name)

/-- Runs a binding and writes its answer to the output channel. -/
def enter (call : Call σ) : Eval σ Unit := do
  note (.call call)
  match ← perform nested (call.binding.run call.args) with
  | some v => modify (·.emit .normal v.display)
  | none => return ()

/-- Calls the binding of a name. Its frame is on the call stack until the call ends, in whatever
    way. -/
def dispatch (frame : Frame) : Eval σ Unit := do
  modify fun s => { s with stack := s.stack.push frame }
  let outcome ← attempt do
    let (binding, args) ← prepare nested frame.name
    enter nested ⟨frame, binding, args⟩
  modify fun s => { s with stack := s.stack.pop?.2 }
  liftM outcome

/-! ## Statements -/

/-- Resolves the tokens of a statement and calls what the first one names. A statement without a name
    does nothing. -/
def runStatement (tokens : List Token) : Eval σ Unit := do
  match ← tokens.mapM (resolveToken nested) with
  | [] => return ()
  | name :: arguments =>
      if name.text.isEmpty then return () else dispatch nested ⟨name.text, arguments⟩

/-- Runs the statements of a program in order, and then fails if the rest of its text cannot be
    read. -/
def runProgram (p : Program) : Eval σ Unit := do
  p.statements.forM (runStatement nested)
  match p.failure? with
  | some e => throw e
  | none => return ()

end Level

/-! ## Levels -/

/-- Evaluates a text with a number of levels left, the one for the text itself included. -/
def evaluateWithin : Nat → String → Eval σ Unit
  | 0, _ => do abort (.recursionLimit (← get).config.maxDepth)
  | levels + 1, text => do
      let depth := (← get).depth
      modify fun s => { s with depth := depth + 1 }
      let outcome ← attempt (runProgram (evaluateWithin levels) (.ofChars text.toList))
      modify fun s => { s with depth }
      match outcome with
      | .ok () => return ()
      | .error e => abort e

end Eval
end CommandShell
