/-!
# `CommandShell.Toml.Value` — the content of a TOML document

## Contents
- `Toml.Value`, what a key of a document stands for.
- `Toml.Entries`, the keys of a table with their values.
-/

namespace CommandShell
namespace Toml

/-- A value of a TOML document. -/
inductive Value where
  | string (s : String)
  | integer (n : Int)
  | float (x : Float)
  | boolean (b : Bool)
  /-- A date, a time or both, in its normalised writing. -/
  | dateTime (text : String)
  | array (items : List Value)
  | table (entries : List (String × Value))

instance : Inhabited Value := ⟨.boolean false⟩

/-- The keys of a table, each once, with their values. -/
abbrev Entries := List (String × Value)

end Toml
end CommandShell
