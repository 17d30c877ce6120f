import CommandShell.Value.Basic
import CommandShell.Value.Type

/-!
# `CommandShell.Call.Param` — declared parameters

A binding declares its parameters in order. A parameter that is optional, by declaration or by its
type, may be left out; what it has then is its default, or nothing.

## Contents
- `Param` with its three builders and its place in a usage line (`Param.signature`).
-/

namespace CommandShell

/-- One declared parameter. -/
structure Param where
  name : String
  type : ValueType
  isOptional : Bool := false
  default? : Option Value := none

namespace Param

def required (name : String) (type : ValueType) : Param :=
  { name, type }

def optional (name : String) (type : ValueType) : Param :=
  { name, type, isOptional := true }

/-- The parameter made optional, with the value it has when it is left out. -/
def withDefault (p : Param) (v : Value) : Param :=
  { p with isOptional := true, default? := some v }

/-- The parameter as a usage line shows it: in square brackets if it may be left out, in angle
    brackets otherwise. -/
def signature (p : Param) : String :=
  let body := p.name ++ ":" ++ p.type.name
  if p.isOptional || p.type.isNullable then "[" ++ body ++ "]" else "<" ++ body ++ ">"

end Param
end CommandShell
