import CommandShell.Call.Param

/-!
# `CommandShell.Binding.Profile` — what is known of a binding without running it

## Contents
- `Memory`, what commands read and change besides the shell: the cells of variables and the state of
  the host.
- `BindingKind` and `Profile`, with its usage line (`Profile.usageText`) and whether its target still
  exists (`Profile.isAlive`).
-/

namespace CommandShell

/-! ## Memory -/

/-- The cells of shell variables and the state of the host. A cell is named by the order in which it
    was made. -/
structure Memory (σ : Type) where
  cells : Array Value := #[]
  host : σ

namespace Memory

variable {σ : Type}

/-- The content of a cell. -/
def cell (m : Memory σ) (i : Nat) : Value :=
  m.cells.getD i .null

def setCell (m : Memory σ) (i : Nat) (v : Value) : Memory σ :=
  { m with cells := m.cells.setIfInBounds i v }

/-- The memory with one more cell, whose name is the number of cells before. -/
def addCell (m : Memory σ) (v : Value) : Memory σ :=
  { m with cells := m.cells.push v }

end Memory

/-! ## Profiles -/

/-- What a binding is, which decides how it is listed and what may replace it. -/
inductive BindingKind where
  | command
  | variable
  | alias
  /-- Dispatched like any other, but left out of listings. -/
  | hidden
deriving DecidableEq, Repr

def BindingKind.name : BindingKind → String
  | .command => "command"
  | .variable => "variable"
  | .alias => "alias"
  | .hidden => "hidden"

/-- The signature of a binding and what describes it. -/
structure Profile (σ : Type) where
  kind : BindingKind := .command
  params : List Param := []
  usage? : Option String := none
  description? : Option String := none
  aliasTarget? : Option String := none
  /-- Says whether the target still exists; without it the target always does. -/
  alive? : Option (Memory σ → Bool) := none

namespace Profile

variable {σ : Type}

/-- Whether the target of the binding exists. -/
def isAlive (p : Profile σ) (m : Memory σ) : Bool :=
  match p.alive? with
  | some alive => alive m
  | none => true

/-- The declared usage line, or the name followed by the signatures of the parameters. -/
def usageText (p : Profile σ) (name : String) : String :=
  p.usage?.getD (" ".intercalate (name :: p.params.map Param.signature))

end Profile
end CommandShell
