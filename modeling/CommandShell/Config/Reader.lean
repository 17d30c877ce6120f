import CommandShell.Config.Basic
import CommandShell.Toml.Decode

/-!
# `CommandShell.Config.Reader` — configurations in TOML

## Contents
- `Config.ofToml`, the configuration that a TOML text writes.
- `textOfFile`, the text of a file.
-/

namespace CommandShell

/-- The text of a file, of which `none` stands for one that does not exist. -/
def textOfFile (content : Option ByteArray) : Except ShellError String :=
  match content.bind String.fromUTF8? with
  | some s => .ok s
  | none => .error .unreadable

namespace Config

/-- The fields of a configuration. -/
def fieldNames : List String :=
  ["max_depth", "max_output_lines", "max_iterations", "echo_input", "builtins", "aliases", "startup"]

/-- The aliases that a table writes. -/
def aliases? (v : Toml.Value) : Option (List (String × String)) := do
  let entries ← v.entries?
  return sortAliases (← entries.mapM fun (name, target) => do return (name, ← target.text?))

/-- The configuration with the given fields; a missing one has the value it has without any
    configuration. -/
def ofEntries? (entries : Toml.Entries) : Option Config := do
  let fields ← (Toml.Value.table entries).fields? fieldNames
  let base : Config := {}
  return {
    maxDepth := ← Toml.optional fields "max_depth" base.maxDepth Toml.Value.natural?
    maxOutputLines := ← Toml.optional fields "max_output_lines" base.maxOutputLines Toml.Value.natural?
    maxIterations := ← Toml.optional fields "max_iterations" base.maxIterations Toml.Value.natural?
    echoInput := ← Toml.optional fields "echo_input" base.echoInput Toml.Value.flag?
    builtins := ← Toml.optional fields "builtins" base.builtins Toml.Value.flag?
    aliases := ← Toml.optional fields "aliases" base.aliases aliases?
    startup := ← Toml.optional fields "startup" base.startup (Toml.Value.list? Toml.Value.text?) }

/-- The configuration that a TOML text writes. -/
def ofToml (s : String) : Except ShellError Config :=
  match (Toml.document? s).bind ofEntries? with
  | some c => c.check
  | none => .error .malformedToml

end Config
end CommandShell
