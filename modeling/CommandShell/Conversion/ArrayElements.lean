import CommandShell.Conversion.Scalar
import CommandShell.Scan.ArrayLiteral
import CommandShell.Scan.Token
import CommandShell.Value.Type

/-!
# `CommandShell.Conversion.ArrayElements` — converting array literals

A literal is split at its outer commas. Each part, trimmed, must be a single token; a sub-evaluation is
replaced by its result; then the text is converted by the conversion of the elements. The first part
that fails decides, and nothing behind it is looked at.

## Contents
- `atElement`, the failure of a whole literal that one element causes.
- `parseElement` and `parseElements`, one part and all parts.
- `parseArray` and `parseVector`, the conversions to arrays and to vectors.
-/

namespace CommandShell

/-- The failure of a literal whose element `index` fails. A failed sub-evaluation has been reported or
    is about to be, so it is passed on as it is. -/
def atElement (index : Nat) (isResult : Bool) : ParseFailure → ParseFailure
  | .resolution e => .resolution e
  | e => .element index (if isResult then .returned e else e)

/-- Converts one part of a literal. -/
def parseElement (element : Parser) (index : Nat) (part : List Char) : Parse Value :=
  let part := Text.trimChars part
  match nextToken part with
  | .error e => .fail (.resolution e)
  | .ok s =>
      if s.endsStatement || !Text.allBlank s.rest then
        .fail (.element index (.notSingle (String.ofList part)))
      else if s.token.kind = .subEval then do
        let text ← Parse.resolved s.token.text
        (element text).mapFailure (atElement index true)
      else (element s.token.text).mapFailure (atElement index false)

/-- Converts the parts of a literal in order; the first of them has the given index. -/
def parseParts (element : Parser) (index : Nat) : List (List Char) → Parse (List Value)
  | [] => pure []
  | part :: parts => do
      let v ← parseElement element index part
      let vs ← parseParts element (index + 1) parts
      return v :: vs

/-- Converts the elements of a literal. A blank text is the literal without elements. -/
def parseElements (element : Parser) (s : String) : Parse (List Value) :=
  if Text.allBlank s.toList then pure []
  else
    match splitArray s.toList with
    | .error e => .fail (.resolution e)
    | .ok parts => parseParts element 0 parts

/-- The conversion to arrays of what `element` converts to. -/
def parseArray (element : Parser) (s : String) : Parse Value := do
  return .array (← parseElements element s)

/-- The conversion to an optional value. -/
def parseOptional (inner : Parser) (s : String) : Parse Value :=
  if isNullText s then pure .null else inner s

/-- The components as a vector of exactly `size` of them, the missing ones zero. -/
def vectorOf (size : Nat) (vs : List Value) : Value :=
  let components := vs.filterMap Value.float?
  .vector (components ++ List.replicate (size - components.length) 0)

/-- The conversion to vectors. Its components are written as an array of numbers. -/
def parseVector (bounds : ValueType.VectorBounds) (s : String) : Parse Value := do
  let vs ← parseElements (fun t => .done (parseFloat t)) s
  if bounds.size < vs.length ∨ vs.length < bounds.least then
    .fail (.components vs.length bounds.least bounds.size)
  else return vectorOf bounds.size vs

end CommandShell
