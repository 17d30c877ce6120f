import CommandShell.Error
import CommandShell.Value.Basic

/-!
# `CommandShell.Call.Args` — the converted arguments of a call

A command receives one value per declared parameter and asks for them by place and kind. An absent
value and a value of another kind are the same failure.

## Contents
- `Args`, `Args.get?` and one accessor for each kind of value.
-/

namespace CommandShell

/-- The values bound to the declared parameters, in order. -/
structure Args where
  values : List Value := []

namespace Args

/-- The argument at a place, if there is one and it is not null. -/
def get? (args : Args) (index : Nat) : Option Value :=
  args.values[index]?.filter fun v => !v.isNull

/-- The argument at a place through a view, which fails on values of another kind. -/
def view (args : Args) (index : Nat) (kind : String) {α : Type} (f : Value → Option α) :
    Except ShellError α :=
  match (args.get? index).bind f with
  | some a => .ok a
  | none => .error (.command ("argument " ++ toString index ++ " is not a " ++ kind ++ " value"))

def text (args : Args) (index : Nat) : Except ShellError String :=
  args.view index "text" Value.text?

def int (args : Args) (index : Nat) : Except ShellError Int64 :=
  args.view index "int" Value.int?

def float (args : Args) (index : Nat) : Except ShellError Float :=
  args.view index "float" Value.float?

def bool (args : Args) (index : Nat) : Except ShellError Bool :=
  args.view index "bool" Value.bool?

def array (args : Args) (index : Nat) : Except ShellError (List Value) :=
  args.view index "array" Value.array?

/-- The components of the argument at a place, a vector of exactly `size` of them. -/
def vector (args : Args) (size index : Nat) : Except ShellError (List Float) :=
  args.view index "vector" (Value.vector? size)

end Args
end CommandShell
