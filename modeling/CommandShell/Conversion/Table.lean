import CommandShell.Conversion.ArrayElements

/-!
# `CommandShell.Conversion.Table` — which types have a conversion

A conversion can be registered for any type, and a later one replaces an earlier one. Optional and
array types without a conversion of their own use that of the type inside.

## Contents
- `Conversions`, with `Conversions.standard`, the built-in table.
- `Conversions.register`, `Conversions.parserFor?`, `Conversions.supports` and `Conversions.parse`.
-/

namespace CommandShell

/-- The registered conversions; the first entry for a type is the one in force. -/
structure Conversions where
  entries : List (ValueType × Parser) := []

namespace Conversions

/-- The conversion registered for exactly this type. -/
def registered? (table : Conversions) (type : ValueType) : Option Parser :=
  table.entries.lookup type

/-- Registers a conversion, replacing an earlier one for the same type. -/
def register (table : Conversions) (type : ValueType) (parser : Parser) : Conversions :=
  ⟨(type, parser) :: table.entries⟩

/-- The conversion for a type, derived from the type inside where none is registered. -/
def parserFor? (table : Conversions) (type : ValueType) : Option Parser :=
  match table.registered? type with
  | some parser => some parser
  | none =>
      match type with
      | .optional inner => (table.parserFor? inner).map parseOptional
      | .array element => (table.parserFor? element).map parseArray
      | _ => none

/-- Whether a text can be converted to values of this type. -/
def supports (table : Conversions) (type : ValueType) : Bool :=
  (table.parserFor? type).isSome

/-- The conversion of a text to a type; without a conversion it fails. -/
def parse (table : Conversions) (type : ValueType) (s : String) : Parse Value :=
  match table.parserFor? type with
  | some parser => parser s
  | none => .fail (.unsupported type.name)

/-- The built-in conversions. -/
def standard : Conversions where
  entries :=
    [(.text, fun s => .done (parseText s)),
     (.int, fun s => .done (parseInt s)),
     (.float, fun s => .done (parseFloat s)),
     (.bool, fun s => .done (parseBool s))] ++
    [ValueType.vec2, .vec3, .vec4].filterMap fun type =>
      type.vectorBounds?.map fun bounds => (type, parseVector bounds)

end Conversions
end CommandShell
