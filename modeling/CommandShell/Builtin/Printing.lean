import CommandShell.Binding.Basic

/-!
# `CommandShell.Builtin.Printing` — commands that write lines

## Contents
- `print`, `echo` and `warn`: lines of output.
- `help` and `which`: what names are bound to.
-/

namespace CommandShell
namespace Builtin

variable {σ : Type}

/-- A required parameter that takes a text as it is. -/
def textParam (name : String) : Param :=
  .required name .text

def print : Command σ where
  name := "print"
  usage := "print <text>"
  description := "Print a value"
  params := [textParam "text"]
  body args := do return some (.text (← args.text 0))

def echo : Command σ where
  name := "echo"
  usage := "echo [args...]"
  description := "Print all arguments separated by spaces"
  body _ := do return some (.text (" ".intercalate (← Script.frame).texts))

def warn : Command σ where
  name := "warn"
  usage := "warn <text>"
  description := "Print a warning"
  params := [textParam "text"]
  body args := do
    Script.emit .warning (← args.text 0)
    return none

/-- A text followed by spaces up to a number of characters. -/
def padded (width : Nat) (s : String) : String :=
  s ++ String.ofList (List.replicate (width - s.length) ' ')

/-- The lines of a listing: the usage lines, each with its description behind the widest of them. The
    width counts bytes and the padding characters, so a usage line outside ASCII moves the column. -/
def listing (entries : List (String × Option String)) : List String :=
  let width := (entries.map (·.1.utf8ByteSize)).foldl max 0
  entries.map fun
    | (usage, some description) => "  " ++ padded width usage ++ "  " ++ description
    | (usage, none) => "  " ++ usage

/-- The lines that explain one binding. -/
def explanation (name : String) (profile : Profile σ) : List String :=
  ("usage: " ++ profile.usageText name) :: profile.description?.toList

def help : Command σ where
  name := "help"
  usage := "help [name]"
  description := "List commands or show help for one"
  params := [.optional "name" .text]
  body args := do
    match (args.get? 0).bind Value.text? with
    | some name => (explanation name (← Script.lookup name)).forM (Script.emit .normal)
    | none =>
        let entries := (← Script.view).visible.map fun (name, profile) =>
          (profile.usageText name, profile.description?)
        (listing entries).forM (Script.emit .normal)
    return none

/-- What a name is bound to, in one line. -/
def summary (name : String) (profile : Profile σ) : String :=
  match profile.aliasTarget? with
  | some target => name ++ ": alias for '" ++ target ++ "'"
  | none => name ++ ": " ++ profile.kind.name ++ " (" ++ profile.usageText name ++ ")"

def which : Command σ where
  name := "which"
  usage := "which <name>"
  description := "Show what a name is bound to"
  params := [textParam "name"]
  body args := do
    let name ← args.text 0
    return some (.text (summary name (← Script.lookup name)))

end Builtin
end CommandShell
