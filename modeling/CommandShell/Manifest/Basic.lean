import CommandShell.Shell.Eval

/-!
# `CommandShell.Manifest.Basic` — binding members of the host

A host exposes fields and methods under paths such as `player.health`. A manifest names the members
that become variables and commands. A member whose path begins with the name of a declared object,
followed by a dot, lives as long as that object.

## Contents
- `CommandEntry`, `VariableEntry` and `Manifest`.
- `HostField`, `HostMethod` and `HostTable`.
- `HostTable.commandBinding` and `HostTable.variableBinding`, the binding of one entry.
- `Manifest.bindings` and `Shell.bindManifest`, the bindings of a manifest in order.
-/

namespace CommandShell

/-! ## Manifests -/

/-- A method to be bound as a command. -/
structure CommandEntry where
  name : String
  method : String
  usage? : Option String := none
  description? : Option String := none
  isHidden : Bool := false
deriving DecidableEq, Repr

/-- A field to be bound as a variable. -/
structure VariableEntry where
  name : String
  field : String
  isReadonly : Bool := false
  description? : Option String := none
  isHidden : Bool := false
deriving DecidableEq, Repr

/-- The members of a host to be bound, commands first. -/
structure Manifest where
  commandEntries : List CommandEntry := []
  variableEntries : List VariableEntry := []
deriving DecidableEq, Repr

/-- The number of entries. -/
def Manifest.size (m : Manifest) : Nat :=
  m.commandEntries.length + m.variableEntries.length

/-! ## Hosts -/

/-- A value of the host that can be read and, unless it is constant, changed. -/
structure HostField (σ : Type) where
  type : ValueType
  get : Memory σ → Value
  set? : Option (Value → Memory σ → Except ShellError (Memory σ)) := none

/-- A procedure of the host. -/
structure HostMethod (σ : Type) where
  params : List Param := []
  body : Args → Script σ (Option Value)

/-- The members that a host exposes, by path, and its objects with the condition for their existence.
    Of two entries with one key the first counts. -/
structure HostTable (σ : Type) where
  objects : List (String × (Memory σ → Bool)) := []
  fields : List (String × HostField σ) := []
  methods : List (String × HostMethod σ) := []

namespace HostTable

variable {σ : Type}

/-- The part of a path in front of its first dot. -/
def owner? (path : String) : Option String :=
  let cs := path.toList
  let object := cs.takeWhile (· ≠ '.')
  if object.length < cs.length then some (String.ofList object) else none

/-- The condition for the existence of the object that owns a path. -/
def aliveFor? (host : HostTable σ) (path : String) : Option (Memory σ → Bool) :=
  (owner? path).bind fun object => host.objects.lookup object

/-- What an entry adds to the binding of its member. -/
def describe (b : Binding σ) (description? : Option String) (isHidden : Bool) : Binding σ :=
  let b := match description? with
    | some d => b.withDescription d
    | none => b
  if isHidden then b.hidden else b

/-- The binding of a method. -/
def commandBinding (host : HostTable σ) (entry : CommandEntry) : Except ShellError (Binding σ) :=
  match host.methods.lookup entry.method with
  | none => .error (.undefinedMethod entry.method)
  | some method =>
      let b := ((Binding.ofScript method.body).addParams method.params).aliveWhen
        (host.aliveFor? entry.method)
      let b := match entry.usage? with
        | some u => b.withUsage u
        | none => b
      .ok (describe b entry.description? entry.isHidden)

/-- The binding of a field. A constant field can only be bound as a read-only variable. -/
def variableBinding (host : HostTable σ) (entry : VariableEntry) : Except ShellError (Binding σ) :=
  match host.fields.lookup entry.field with
  | none => .error (.undefinedField entry.field)
  | some field =>
      let finish (b : Binding σ) : Except ShellError (Binding σ) :=
        .ok (describe (b.aliveWhen (host.aliveFor? entry.field)) entry.description? entry.isHidden)
      if entry.isReadonly then finish (.readonly field.type field.get)
      else
        match field.set? with
        | some set => finish (.ofVariable field.type ⟨field.get, set⟩)
        | none => .error (.constantField entry.field)

end HostTable

/-! ## Binding a manifest -/

/-- The names that a manifest binds, each with its binding or the reason why it has none. -/
def Manifest.bindings {σ : Type} (m : Manifest) (host : HostTable σ) :
    List (String × Except ShellError (Binding σ)) :=
  m.commandEntries.map (fun entry => (entry.name, host.commandBinding entry)) ++
    m.variableEntries.map (fun entry => (entry.name, host.variableBinding entry))

namespace Shell

variable {σ : Type}

/-- Binds names in order, of which `bound` have been bound before, and stops at the first failure. -/
def bindEntries (bound : Nat) : List (String × Except ShellError (Binding σ)) → Eval σ Nat
  | [] => return bound
  | (name, binding) :: rest => do
      let s ← get
      match binding.bind (s.bind name) with
      | .ok s' =>
          set s'
          bindEntries (bound + 1) rest
      | .error e =>
          modify (·.report e)
          throw e

/-- Binds the entries of a manifest and answers with their number. The first failure is reported, and
    what was bound before it stays bound. -/
def bindManifest (m : Manifest) (host : HostTable σ) : Eval σ Nat :=
  bindEntries 0 (m.bindings host)

end Shell
end CommandShell
