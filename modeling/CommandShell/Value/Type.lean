/-!
# `CommandShell.Value.Type` — the types of parameters and variables

A type says what a text is converted to. The seven basic types have conversions of their own, optional
and array types derive theirs from the type inside, and a custom type gets one from the host.

## Contents
- `ValueType` with its name (`ValueType.name`), nullability and vector bounds.
-/

namespace CommandShell

/-- The type that a text is to be converted to. -/
inductive ValueType where
  | text
  | int
  | float
  | bool
  | vec2
  | vec3
  | vec4
  /-- Either absent or of the type inside. -/
  | optional (inner : ValueType)
  /-- A list whose elements are of one type. -/
  | array (element : ValueType)
  /-- A type of the host, usable once a conversion is registered for it. -/
  | custom (name : String)
deriving DecidableEq, Repr

namespace ValueType

/-- The name of a type as messages and signatures show it. -/
def name : ValueType → String
  | text => "text"
  | int => "int"
  | float => "float"
  | bool => "bool"
  | vec2 => "vec2"
  | vec3 => "vec3"
  | vec4 => "vec4"
  | optional inner => inner.name ++ "?"
  | array element => element.name ++ "[]"
  | custom name => name

/-- Whether an argument of this type may be missing. -/
def isNullable : ValueType → Bool
  | optional _ => true
  | _ => false

/-- The number of components of a vector type and the least number that must be written. -/
structure VectorBounds where
  size : Nat
  least : Nat
deriving DecidableEq, Repr

/-- The bounds of the vector types; the last component of a four-vector may be left out. -/
def vectorBounds? : ValueType → Option VectorBounds
  | vec2 => some ⟨2, 2⟩
  | vec3 => some ⟨3, 3⟩
  | vec4 => some ⟨4, 3⟩
  | _ => none

end ValueType
end CommandShell
