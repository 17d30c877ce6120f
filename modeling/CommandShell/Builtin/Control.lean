import CommandShell.Builtin.Printing

/-!
# `CommandShell.Builtin.Control` — conditions, repetition and comparison

## Contents
- `ifCommand`, `repeatCommand` and `exec`: commands that evaluate texts.
- `eq` and `not`: commands that answer truth values.
-/

namespace CommandShell
namespace Builtin

variable {σ : Type}

/-- Evaluates a text, if there is one. -/
def evalGiven : Option String → Script σ Unit
  | some text => Script.evalBlock text
  | none => return ()

def ifCommand : Command σ where
  name := "if"
  usage := "if <condition> \x7bthen\x7d [\x7belse\x7d]"
  description := "Evaluate a block when a condition holds"
  params := [.required "condition" .bool, textParam "then", .optional "else" .text]
  body args := do
    let block ←
      if ← args.bool 0 then some <$> (args.text 1 : Except ShellError String)
      else pure ((args.get? 2).bind Value.text?)
    evalGiven block
    return none

/-- Evaluates a text a number of times, up to its first failure. -/
def repeatBlock (text : String) : Nat → Script σ Unit
  | 0 => return ()
  | count + 1 => do
      Script.evalBlock text
      repeatBlock text count

/-- The number of iterations granted for a request. Beyond the limit a warning is written. -/
def grantIterations (requested : Int64) : Script σ Nat := do
  let limit := (← Script.view).config.maxIterations
  let count := requested.toInt.toNat
  if limit < count then
    Script.emit .warning ("repeat: limited to " ++ toString limit ++ " iterations")
    return limit
  else return count

def repeatCommand : Command σ where
  name := "repeat"
  usage := "repeat <count> \x7bblock\x7d"
  description := "Evaluate a block a number of times"
  params := [.required "count" .int, textParam "block"]
  body args := do
    let count ← grantIterations (← args.int 0)
    repeatBlock (← args.text 1) count
    return none

def exec : Command σ where
  name := "exec"
  usage := "exec <text>"
  description := "Evaluate text as statements"
  params := [textParam "text"]
  body args := do
    Script.evalBlock (← args.text 0)
    return none

def eq : Command σ where
  name := "eq"
  usage := "eq <a> <b>"
  description := "Compare two texts"
  params := [textParam "a", textParam "b"]
  body args := do return some (.bool ((← args.text 0) == (← args.text 1)))

def not : Command σ where
  name := "not"
  usage := "not <bool>"
  description := "Negate a bool"
  params := [.required "value" .bool]
  body args := do return some (.bool !(← args.bool 0))

end Builtin
end CommandShell
