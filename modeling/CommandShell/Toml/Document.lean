import CommandShell.Toml.Scalar
import CommandShell.Toml.Table

/-!
# `CommandShell.Toml.Document` — reading a TOML document

A document is a list of lines: blank ones, keys with values, and headers that say which table the keys
behind them belong to. Version 1.0 of the language is read in full; a byte order mark at the front is
skipped. Arrays and tables nest up to a fixed depth.

## Contents
- `value`, a value of any form.
- `Document`, the tables read so far, and `documentLine`, one more line.
- `document?`, the table that a text defines.
-/

namespace CommandShell
namespace Toml

/-! ## Values -/

/-- Reads a list whose items are separated by commas up to a closing bracket; a comma may also stand
    behind the last item. `steps` bounds the number of items. -/
def arrayItems (item : Reader Value) : Nat → Reader (List Value)
  | 0 => failure
  | steps + 1 => do
      Reader.skipLines
      if ← Reader.accept ']' then return []
      let v ← item
      Reader.skipLines
      if ← Reader.accept ',' then return v :: (← arrayItems item steps)
      Reader.expect ']'
      return [v]

/-- Reads a key, an equals sign and a value. -/
def keyValue (item : Reader Value) : Reader (List String × Value) := do
  let path ← key
  Reader.expect '='
  Reader.skipSpaces
  return (path, ← item)

/-- Reads the keys of a table on one line up to its closing brace, and adds them to a table. At least
    one key is still to come; `steps` bounds their number. -/
def inlineKeys (item : Reader Value) (node : Node) : Nat → Reader Node
  | 0 => failure
  | steps + 1 => do
      let (path, v) ← keyValue item
      let node ← StateT.lift (node.insertPair [] path v)
      Reader.skipSpaces
      if ← Reader.accept ',' then inlineKeys item node steps
      else
        Reader.expect '}'
        return node

/-- Reads a table on one line behind its opening brace. -/
def inlineTable (item : Reader Value) : Reader Value := do
  Reader.skipSpaces
  if ← Reader.accept '}' then return .table []
  return (← inlineKeys item (.table .defined []) (← get).length).toValue

/-- Reads a value with at most so many arrays and tables inside one another. -/
def value (levels : Nat) : Reader Value := do
  if let some s ← string? then return .string s
  if ← Reader.accept '[' then
    match levels with
    | 0 => failure
    | inner + 1 => return .array (← arrayItems (value inner) ((← get).length + 1))
  else if ← Reader.accept '{' then
    match levels with
    | 0 => failure
    | inner + 1 => inlineTable (value inner)
  else bareValue

/-! ## Lines -/

/-- The tables of a document and the header of the section being read. -/
structure Document where
  root : Node := .table .defined []
  header : List String := []

/-- Reads the header of a section behind its opening bracket. -/
def sectionHeader (doc : Document) : Reader Document := do
  let isArray ← Reader.accept '['
  let header ← key
  Reader.expect ']'
  if isArray then
    Reader.expect ']'
    return ⟨← StateT.lift (doc.root.appendTable header), header⟩
  else return ⟨← StateT.lift (doc.root.defineTable header), header⟩

/-- Reads one line. -/
def documentLine (doc : Document) : Reader Document := do
  Reader.skipSpaces
  match ← get with
  | [] => return doc
  | c :: _ =>
      let doc ←
        if c = '#' ∨ c = '\n' ∨ c = '\r' then pure doc
        else if ← Reader.accept '[' then sectionHeader doc
        else do
          let (path, v) ← keyValue (value nestingLimit)
          pure { doc with root := ← StateT.lift (doc.root.insertPair doc.header path v) }
      Reader.endLine
      return doc

/-- Reads lines up to the end of the text; `steps` bounds their number. -/
def documentLines (doc : Document) : Nat → Reader Document
  | 0 => return doc
  | steps + 1 => do
      if (← get).isEmpty then return doc
      documentLines (← documentLine doc) steps

/-- The entries of the table that a text defines, or `none` when it is not a TOML document. -/
def document? (s : String) : Option Entries := do
  let cs := match s.toList with
    | '\ufeff' :: rest => rest
    | cs => cs
  let (doc, _) ← (documentLines {} cs.length).run cs
  match doc.root.toValue with
  | .table entries => some entries
  | _ => none

end Toml
end CommandShell
