import CommandShell.Binding.Action
import CommandShell.Scan.Quoting

/-!
# `CommandShell.Binding.Basic` — commands, variables and aliases

## Contents
- `Binding`, a profile together with what its call does.
- `Binding.ofVariable` and its special cases: read-only variables and variables stored in a cell.
- `Binding.ofAlias`, and the statement an alias stands for (`aliasStatement`).
- `Command`, a command that describes itself.
-/

namespace CommandShell

/-- Something that can be called by a name. -/
structure Binding (σ : Type) where
  profile : Profile σ := {}
  run : Args → Action σ

namespace Binding

variable {σ : Type}

/-- A command without parameters or description. -/
def ofScript (body : Args → Script σ (Option Value)) : Binding σ where
  run args := (body args).toAction

/-! ## Changing the profile -/

def addParams (b : Binding σ) (params : List Param) : Binding σ :=
  { b with profile := { b.profile with params := b.profile.params ++ params } }

def withUsage (b : Binding σ) (usage : String) : Binding σ :=
  { b with profile := { b.profile with usage? := some usage } }

def withDescription (b : Binding σ) (description : String) : Binding σ :=
  { b with profile := { b.profile with description? := some description } }

/-- The binding left out of listings. -/
def hidden (b : Binding σ) : Binding σ :=
  { b with profile := { b.profile with kind := .hidden } }

/-- The binding with a condition for the existence of its target. -/
def aliveWhen (b : Binding σ) (alive? : Option (Memory σ → Bool)) : Binding σ :=
  { b with profile := { b.profile with alive? } }

/-! ## Variables -/

/-- How the value of a variable is read and changed. -/
structure Accessor (σ : Type) where
  get : Memory σ → Value
  set : Value → Memory σ → Except ShellError (Memory σ)

namespace Accessor

/-- A variable that refuses every change with one failure. -/
def refusing (get : Memory σ → Value) (e : ShellError) : Accessor σ where
  get := get
  set _ _ := .error e

/-- The variable stored in a cell. -/
def ofCell (index : Nat) : Accessor σ where
  get m := m.cell index
  set v m := .ok (m.setCell index v)

end Accessor

/-- A variable: called without an argument it answers its value, called with one it stores it. -/
def ofVariable (type : ValueType) (access : Accessor σ) : Binding σ where
  profile := { kind := .variable, params := [.optional "value" type] }
  run args := Script.toAction do
    let memory := (← Script.view).memory
    match args.get? 0 with
    | none => return some (access.get memory)
    | some v =>
        let changed ← access.set v memory
        Script.update fun _ => changed
        return none

/-- A variable that cannot be changed. -/
def readonly (type : ValueType) (get : Memory σ → Value) : Binding σ :=
  ofVariable type (.refusing get (.command "variable is read-only"))

/-- A variable stored in a cell. -/
def ofCell (type : ValueType) (index : Nat) : Binding σ :=
  ofVariable type (.ofCell index)

/-! ## Aliases -/

/-- The statement that an alias stands for: its target followed by the arguments of the call. -/
def aliasStatement (target : String) (arguments : List String) : String :=
  arguments.foldl (fun statement text => statement ++ " " ++ quoteIfNeeded text) target

/-- An alias: a call evaluates its target with the arguments of the call appended. What the target
    means is decided when the alias is called. -/
def ofAlias (target : String) : Binding σ where
  profile := { kind := .alias, aliasTarget? := some target }
  run _ := Script.toAction do
    let frame ← Script.frame
    Script.evalBlock (aliasStatement target frame.texts)
    return none

end Binding

/-! ## Commands that describe themselves -/

/-- A command with its own name, usage line and description. -/
structure Command (σ : Type) where
  name : String
  usage : String
  description : String
  params : List Param := []
  body : Args → Script σ (Option Value)

/-- The binding of a command. -/
def Command.toBinding {σ : Type} (c : Command σ) : Binding σ :=
  ((Binding.ofScript c.body).addParams c.params).withUsage c.usage |>.withDescription c.description

/-- Binds a name from inside a command and passes a refusal on. -/
def Script.bind {σ : Type} (name : String) (b : Binding σ) : Script σ Unit :=
  fun next => .bind name b.profile b.run fun r => ofExcept r next

end CommandShell
