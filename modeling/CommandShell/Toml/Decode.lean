import CommandShell.Toml.Document

/-!
# `CommandShell.Toml.Decode` — from documents to records

## Contents
- The views of a value that records ask for: `Value.text?`, `Value.natural?`, `Value.flag?`,
  `Value.list?` and `Value.entries?`.
- `Value.fields?`, the fields of a record, by name or by place.
-/

namespace CommandShell
namespace Toml
namespace Value

def text? : Value → Option String
  | string s => some s
  | _ => none

def natural? : Value → Option Nat
  | integer n => if 0 ≤ n then some n.toNat else none
  | _ => none

def flag? : Value → Option Bool
  | boolean b => some b
  | _ => none

/-- The items of an array through a view. -/
def list? {α : Type} (view : Value → Option α) : Value → Option (List α)
  | array items => items.mapM view
  | _ => none

/-- The one key under which a date stands where a table is asked for. -/
def dateTimeKey : String := "$__toml_private_datetime"

/-- The entries of a table. A date is the table with its text under a reserved key. -/
def entries? : Value → Option Entries
  | table entries => some entries
  | dateTime text => some [(dateTimeKey, string text)]
  | _ => none

/-- The fields of a record with the given names, in any order. A record may also be written as an
    array: its items are the fields in the order of their names, and further items are ignored. A name
    that the record does not have is refused. -/
def fields? (names : List String) : Value → Option Entries
  | array items => some (names.zip items)
  | v => do
      let entries ← v.entries?
      if entries.all fun entry => names.contains entry.1 then some entries else none

end Value

/-- A field that must be there. -/
def required {α : Type} (entries : Entries) (name : String) (view : Value → Option α) : Option α :=
  (entries.lookup name).bind view

/-- A field that may be missing and then has a given value. -/
def optional {α : Type} (entries : Entries) (name : String) (absent : α) (view : Value → Option α) :
    Option α :=
  match entries.lookup name with
  | some v => view v
  | none => some absent

end Toml
end CommandShell
