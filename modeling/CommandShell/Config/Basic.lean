import CommandShell.Error
import CommandShell.Text.Blank

/-!
# `CommandShell.Config.Basic` — limits and start-up of a shell

## Contents
- `Config`, with the values a shell has when nothing is configured.
- `Config.check`, what a configuration must satisfy.
-/

namespace CommandShell

/-- The limits of a shell and what it does when it starts. -/
structure Config where
  /-- The greatest nesting of evaluations. -/
  maxDepth : Nat := 64
  /-- The lines of output kept before the oldest are dropped, or zero for no bound. -/
  maxOutputLines : Nat := 1000
  /-- The greatest number of iterations of one `repeat`. -/
  maxIterations : Nat := 1000
  /-- Whether every input submitted from outside is shown before it is evaluated. -/
  echoInput : Bool := false
  /-- Whether the built-in commands are bound. -/
  builtins : Bool := true
  /-- The aliases bound at the start, name and target, in order of their names. -/
  aliases : List (String × String) := []
  /-- The statements evaluated at the start, in order. -/
  startup : List String := []
deriving DecidableEq, Repr

namespace Config

/-- Puts an alias in its place among aliases in order of their names. -/
def insertAlias (entry : String × String) : List (String × String) → List (String × String)
  | [] => [entry]
  | first :: rest =>
      if entry.1 < first.1 then entry :: first :: rest
      else if entry.1 = first.1 then entry :: rest
      else first :: insertAlias entry rest

/-- Aliases in order of their names; of two with one name the later counts. -/
def sortAliases (entries : List (String × String)) : List (String × String) :=
  entries.foldl (fun sorted entry => insertAlias entry sorted) []

/-- Refuses a configuration under which nothing could be evaluated or an alias could not be bound. -/
def check (c : Config) : Except ShellError Config :=
  if c.maxDepth = 0 then .error (.config "max_depth must be at least 1")
  else
    match c.aliases.find? fun entry => Text.allBlank entry.1.toList with
    | some (name, _) => .error (.config ("invalid alias name: '" ++ name ++ "'"))
    | none => .ok c

end Config
end CommandShell
