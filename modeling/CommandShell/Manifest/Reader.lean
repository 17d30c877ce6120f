import CommandShell.Manifest.Basic
import CommandShell.Toml.Decode

/-!
# `CommandShell.Manifest.Reader` — manifests in TOML

```toml
[[command]]
name = "heal"
method = "player.heal"
description = "Restore health"

[[variable]]
name = "hp"
field = "player.health"
```

## Contents
- `Manifest.ofToml`, the manifest that a TOML text writes.
-/

namespace CommandShell

/-- The view of a text that need not be there. -/
def optionalText? (v : Toml.Value) : Option (Option String) :=
  v.text?.map some

/-- The command entry that a record writes. -/
def CommandEntry.ofToml? (v : Toml.Value) : Option CommandEntry := do
  let fields ← v.fields? ["name", "method", "usage", "description", "hidden"]
  return {
    name := ← Toml.required fields "name" Toml.Value.text?
    method := ← Toml.required fields "method" Toml.Value.text?
    usage? := ← Toml.optional fields "usage" none optionalText?
    description? := ← Toml.optional fields "description" none optionalText?
    isHidden := ← Toml.optional fields "hidden" false Toml.Value.flag? }

/-- The variable entry that a record writes. -/
def VariableEntry.ofToml? (v : Toml.Value) : Option VariableEntry := do
  let fields ← v.fields? ["name", "field", "readonly", "description", "hidden"]
  return {
    name := ← Toml.required fields "name" Toml.Value.text?
    field := ← Toml.required fields "field" Toml.Value.text?
    isReadonly := ← Toml.optional fields "readonly" false Toml.Value.flag?
    description? := ← Toml.optional fields "description" none optionalText?
    isHidden := ← Toml.optional fields "hidden" false Toml.Value.flag? }

namespace Manifest

/-- The manifest with the given fields. -/
def ofEntries? (entries : Toml.Entries) : Option Manifest := do
  let fields ← (Toml.Value.table entries).fields? ["command", "variable"]
  return {
    commandEntries := ← Toml.optional fields "command" [] (Toml.Value.list? CommandEntry.ofToml?)
    variableEntries :=
      ← Toml.optional fields "variable" [] (Toml.Value.list? VariableEntry.ofToml?) }

/-- The manifest that a TOML text writes. -/
def ofToml (s : String) : Except ShellError Manifest :=
  match (Toml.document? s).bind ofEntries? with
  | some m => .ok m
  | none => .error .malformedToml

end Manifest
end CommandShell
