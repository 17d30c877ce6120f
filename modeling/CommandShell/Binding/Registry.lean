import CommandShell.Binding.Basic
import CommandShell.Binding.Dictionary
import CommandShell.Conversion.Table
import CommandShell.Text.Lowercase

/-!
# `CommandShell.Binding.Registry` — bindings by name

Names are compared without regard to case: they are kept and looked up in lower case. White space
around a name is dropped when it is registered, and only then; a name with white space inside is
refused.

## Contents
- `Registry`, the bindings by lower-case name.
- `Registry.register`, `Registry.remove`, `Registry.lookup?` and `Registry.contains`.
- `Registry.visible` and `Registry.completions`, which list names in order of their code points.
-/

namespace CommandShell

/-- The bindings of a shell by lower-case name. -/
structure Registry (σ : Type) where
  bindings : Dictionary (Binding σ) := ∅

namespace Registry

variable {σ : Type}

/-- The name under which a binding is kept. -/
def keyOf (name : String) : String :=
  Text.lower (Text.trim name)

/-- Keeps a binding under a name, replacing what was bound to it, and says whether it has done so. It
    refuses a name without a key, and a binding with a parameter that no text converts to. -/
def register (r : Registry σ) (types : Conversions) (name : String) (b : Binding σ) :
    Except ShellError Unit × Registry σ :=
  let key := keyOf name
  if key.isEmpty || key.toList.any Text.isBlank then
    (.error (.command ("invalid binding name: '" ++ name ++ "'")), r)
  else
    match b.profile.params.find? fun p => !types.supports p.type with
    | some p => (.error (.unsupportedType key p.name p.type.name), r)
    | none => (.ok (), ⟨r.bindings.insert key b⟩)

/-- The binding of a name. -/
def lookup? (r : Registry σ) (name : String) : Option (Binding σ) :=
  r.bindings[Text.lower name]?

def contains (r : Registry σ) (name : String) : Bool :=
  r.bindings.contains (Text.lower name)

/-- The registry without the binding of a name. -/
def remove (r : Registry σ) (name : String) : Registry σ :=
  ⟨r.bindings.erase (Text.lower name)⟩

/-- The bindings that are not hidden, in order of their names. -/
def visible (r : Registry σ) : List (String × Binding σ) :=
  (r.bindings.entries.filter fun entry => entry.2.profile.kind ≠ .hidden).mergeSort
    fun a b => a.1 ≤ b.1

/-- The names of the visible bindings that begin with a text, case apart. -/
def completions (r : Registry σ) (beginning : String) : List String :=
  (r.visible.map (·.1)).filter fun name => (Text.lower beginning).toList.isPrefixOf name.toList

/-- The number of bindings, the hidden ones included. -/
def size (r : Registry σ) : Nat :=
  r.bindings.size

end Registry
end CommandShell
