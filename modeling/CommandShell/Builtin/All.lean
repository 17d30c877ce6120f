import CommandShell.Builtin.Control
import CommandShell.Builtin.Naming

/-!
# `CommandShell.Builtin.All` — the built-in commands

## Contents
- `Builtin.all`, the commands that a shell has from the start unless its configuration says otherwise.
-/

namespace CommandShell
namespace Builtin

/-- The built-in commands. -/
def all {σ : Type} : List (Command σ) :=
  [print, echo, warn, help, which, aliasCommand, unalias, var, unset, ifCommand, repeatCommand, exec,
   eq, not]

end Builtin
end CommandShell
