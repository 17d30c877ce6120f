import CommandShell.Builtin.Printing
import CommandShell.Scan.Quoting

/-!
# `CommandShell.Builtin.Naming` — commands that bind and remove names

A name that is bound can be bound again only as what it is: an alias as an alias, a variable as a
variable. The name is looked up as it is given.

## Contents
- `aliasCommand` and `unalias`.
- `var` and `unset`.
-/

namespace CommandShell
namespace Builtin

variable {σ : Type}

/-- Ends the command unless a name is free or bound as `kind`. -/
def requireKind (command name : String) (kind : BindingKind) : Script σ Unit := do
  match (← Script.view).lookup name with
  | none => return ()
  | some existing =>
      if existing.kind ≠ kind then
        Script.fail (.command
          (command ++ ": '" ++ name ++ "' is already bound as a " ++ existing.kind.name))

/-- Removes the binding of a name, which must be of the given kind. -/
def removeKind (name : String) (kind : BindingKind) : Script σ (Option Value) := do
  let existing ← Script.lookup name
  if existing.kind ≠ kind then
    Script.fail (.command ("cannot remove '" ++ name ++ "': it is a " ++ existing.kind.name))
  else
    let _ ← Script.unbind name
    return none

/-! ## Aliases -/

/-- Binds a name as an alias. -/
def defineAlias (name target : String) : Script σ (Option Value) := do
  requireKind "alias" name .alias
  Script.bind name (.ofAlias target)
  return none

/-- The statement that defines an alias again. -/
def aliasDefinition (name target : String) : String :=
  "alias " ++ name ++ " " ++ quoteIfNeeded target

/-- The target of the alias bound to a name. -/
def aliasTarget (name : String) : Script σ String := do
  match ((← Script.view).lookup name).bind (·.aliasTarget?) with
  | some target => return target
  | none => Script.fail (.command ("alias: '" ++ name ++ "' is not an alias"))

/-- Writes a definition for every alias in the listings. -/
def listAliases : Script σ (Option Value) := do
  let definitions := (← Script.view).visible.filterMap fun (name, profile) =>
    profile.aliasTarget?.map (aliasDefinition name)
  definitions.forM (Script.emit .normal)
  return none

/-- What is done with the arguments of the command as they are written: a single word is the target
    as it stands, several words are quoted where they have to be. -/
def aliasWith : List String → Script σ (Option Value)
  | [] => listAliases
  | [name] => do return some (.text (← aliasTarget name))
  | [name, target] => defineAlias name target
  | name :: words => defineAlias name (" ".intercalate (words.map quoteIfNeeded))

def aliasCommand : Command σ where
  name := "alias"
  usage := "alias [name] [target...]"
  description := "List aliases or define one"
  body _ := do aliasWith (← Script.frame).texts

def unalias : Command σ where
  name := "unalias"
  usage := "unalias <name>"
  description := "Remove an alias"
  params := [textParam "name"]
  body args := do removeKind (← args.text 0) .alias

/-! ## Variables -/

def var : Command σ where
  name := "var"
  usage := "var <name> [value]"
  description := "Declare a text variable"
  params := [textParam "name", (Param.optional "value" .text).withDefault (.text "")]
  body args := do
    let name ← args.text 0
    let content ← args.text 1
    requireKind "var" name .variable
    let cell ← Script.newCell (.text content)
    Script.bind name ((Binding.ofCell .text cell).withDescription "Shell variable")
    return none

def unset : Command σ where
  name := "unset"
  usage := "unset <name>"
  description := "Remove a variable"
  params := [textParam "name"]
  body args := do removeKind (← args.text 0) .variable

end Builtin
end CommandShell
