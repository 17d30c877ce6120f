import CommandShell.Proofs.Evaluation.Manifests
import CommandShell.Proofs.Registrations

/-!
# `CommandShell.Proofs.ManifestPrefix` — how far a manifest is bound

The entries of a manifest are bound in order up to the first one that is refused. Whether an entry is
refused is decided by the host and by the conversions of the shell, not by what is bound already: so the
first entry that is refused can be told in advance, and the registry afterwards is that of the entries in
front of it.

## Contents
- `ManifestEntry` and `Manifest.entries`.
- `HostTable.exists_of_commandBinding` and `HostTable.exists_of_variableBinding`, the binding of an entry.
- `ManifestEntry.Refused`, why an entry is not bound, and `Registry.bindEntry`.
- `Shell.exec_bindEntries`, how far a list of entries is bound.
- `Shell.bindManifest_binds_prefix`.
-/

namespace CommandShell

open Eval

variable {σ : Type}

/-! ## Entries -/

/-- An entry of a manifest. -/
inductive ManifestEntry where
  | ofCommand (entry : CommandEntry)
  | ofVariable (entry : VariableEntry)

namespace ManifestEntry

def name : ManifestEntry → String
  | .ofCommand entry => entry.name
  | .ofVariable entry => entry.name

/-- The binding of the member that the entry names. -/
def binding (table : HostTable σ) : ManifestEntry → Except ShellError (Binding σ)
  | .ofCommand entry => table.commandBinding entry
  | .ofVariable entry => table.variableBinding entry

/-- Why an entry is not bound: the host has no such member, or has it as a constant that is to be
    changed; or there is a binding and the registry does not keep it, for its name or for the first of
    its parameters that no text converts to. -/
inductive Refused (types : Conversions) (table : HostTable σ) : ManifestEntry → ShellError → Prop
  | method {entry : CommandEntry} (h : table.methods.lookup entry.method = none) :
      Refused types table (.ofCommand entry) (.undefinedMethod entry.method)
  | field {entry : VariableEntry} (h : table.fields.lookup entry.field = none) :
      Refused types table (.ofVariable entry) (.undefinedField entry.field)
  | constant {entry : VariableEntry} {field : HostField σ} (h : table.fields.lookup entry.field = some field)
      (hwritable : entry.isReadonly = false) (hset : field.set? = none) :
      Refused types table (.ofVariable entry) (.constantField entry.field)
  | name {entry : ManifestEntry} {b : Binding σ} (hb : entry.binding table = .ok b)
      (hkey : ¬ Registry.IsKey (Registry.keyOf entry.name)) :
      Refused types table entry (.command ("invalid binding name: '" ++ entry.name ++ "'"))
  | type {entry : ManifestEntry} {b : Binding σ} {p : Param} (hb : entry.binding table = .ok b)
      (hkey : Registry.IsKey (Registry.keyOf entry.name))
      (hp : b.profile.params.find? (fun p => !types.supports p.type) = some p) :
      Refused types table entry (.unsupportedType (Registry.keyOf entry.name) p.name p.type.name)

end ManifestEntry

/-- The entries of a manifest in the order in which they are bound, commands first. -/
def Manifest.entries (m : Manifest) : List ManifestEntry :=
  m.commandEntries.map .ofCommand ++ m.variableEntries.map .ofVariable

theorem Manifest.bindings_eq (m : Manifest) (table : HostTable σ) :
    m.bindings table = m.entries.map fun entry => (entry.name, entry.binding table) := by
  rw [bindings, entries, List.map_append, List.map_map, List.map_map]
  rfl

/-! ## Members -/

namespace HostTable

variable {table : HostTable σ} {b : Binding σ} {e : ShellError}

/-- What an entry says about its member is neither what the member does nor how long it is there. -/
theorem describe_spec (b : Binding σ) (description? : Option String) (isHidden : Bool) :
    (describe b description? isHidden).run = b.run ∧
      (describe b description? isHidden).profile.alive? = b.profile.alive? := by
  cases description? <;> cases isHidden <;> exact ⟨rfl, rfl⟩

/-- The binding of a method does what the method does, as long as the object lives that owns its path. -/
theorem exists_of_commandBinding {entry : CommandEntry} (hb : table.commandBinding entry = .ok b) :
    ∃ method, table.methods.lookup entry.method = some method ∧
      (∀ args, b.run args = (method.body args).toAction) ∧
      b.profile.alive? = table.aliveFor? entry.method := by
  unfold commandBinding at hb
  split at hb
  · cases hb
  · next method hmethod =>
    cases hb
    rw [(describe_spec ..).1, (describe_spec ..).2]
    refine ⟨method, hmethod, fun args => ?_, ?_⟩
    · cases entry.usage? <;> rfl
    · cases entry.usage? <;> rfl

/-- The binding of a field is a variable that is set as the field is, if it is set at all. -/
theorem exists_of_variableBinding {entry : VariableEntry} (hb : table.variableBinding entry = .ok b) :
    ∃ field access, table.fields.lookup entry.field = some field ∧
      (∀ v m m', access.set v m = .ok m' → ∃ set, field.set? = some set ∧ set v m = .ok m') ∧
      b.run = (Binding.ofVariable field.type access).run ∧
      b.profile.alive? = table.aliveFor? entry.field := by
  unfold variableBinding at hb
  split at hb
  · cases hb
  · next field hfield =>
    dsimp only at hb
    split at hb
    · cases hb
      rw [(describe_spec ..).1, (describe_spec ..).2]
      refine ⟨field, .refusing field.get _, hfield, ?_, rfl, rfl⟩
      intro v m m' hstored
      cases hstored
    · split at hb
      · next set hset =>
        cases hb
        rw [(describe_spec ..).1, (describe_spec ..).2]
        exact ⟨field, ⟨field.get, set⟩, hfield, fun v m m' hstored => ⟨set, hset, hstored⟩, rfl, rfl⟩
      · cases hb

/-! ## Refusals -/

theorem commandBinding_eq_error_iff {entry : CommandEntry} :
    table.commandBinding entry = .error e ↔
      table.methods.lookup entry.method = none ∧ e = .undefinedMethod entry.method := by
  unfold commandBinding
  cases table.methods.lookup entry.method with
  | none => simp [eq_comm (a := e)]
  | some method => simp

theorem variableBinding_eq_error_iff {entry : VariableEntry} :
    table.variableBinding entry = .error e ↔
      (table.fields.lookup entry.field = none ∧ e = .undefinedField entry.field) ∨
      ∃ field, table.fields.lookup entry.field = some field ∧ entry.isReadonly = false ∧
        field.set? = none ∧ e = .constantField entry.field := by
  unfold variableBinding
  cases table.fields.lookup entry.field with
  | none => simp [eq_comm (a := e)]
  | some field =>
      cases entry.isReadonly with
      | true => simp
      | false =>
          cases hset : field.set? with
          | none => simp [hset, eq_comm (a := e)]
          | some set => simp [hset]

end HostTable

/-- Keeps the member that an entry names under the name it gives. -/
def Registry.bindEntry (types : Conversions) (table : HostTable σ) (r : Registry σ)
    (entry : ManifestEntry) : Except ShellError (Registry σ) :=
  (entry.binding table).bind fun b =>
    let (outcome, r') := r.register types entry.name b
    outcome.map fun () => r'

section Refusals

variable {types : Conversions} {table : HostTable σ} {r : Registry σ} {entry : ManifestEntry}
  {e : ShellError}

theorem ManifestEntry.refused_of_binding_error (h : entry.binding table = .error e) :
    entry.Refused types table e := by
  cases entry with
  | ofCommand entry =>
      obtain ⟨hmethod, rfl⟩ := HostTable.commandBinding_eq_error_iff.mp h
      exact .method hmethod
  | ofVariable entry =>
      rcases HostTable.variableBinding_eq_error_iff.mp h with
        ⟨hfield, rfl⟩ | ⟨field, hfield, hwritable, hset, rfl⟩
      · exact .field hfield
      · exact .constant hfield hwritable hset

/-- An entry that names a member is refused if the registry refuses it. -/
theorem Registry.bindEntry_eq_error_iff_register {b : Binding σ} (hb : entry.binding table = .ok b) :
    r.bindEntry types table entry = .error e ↔ (r.register types entry.name b).1 = .error e := by
  rw [bindEntry, hb, Except.bind]
  rcases r.register types entry.name b with ⟨_ | _, _⟩
  · simp [Except.map]
  · simp [Except.map]

/-- An entry is refused whatever is bound already. -/
theorem Registry.bindEntry_eq_error_iff :
    r.bindEntry types table entry = .error e ↔ entry.Refused types table e := by
  constructor
  · intro h
    cases hb : entry.binding table with
    | error e' =>
        rw [bindEntry, hb, Except.bind] at h
        cases h
        exact ManifestEntry.refused_of_binding_error hb
    | ok b =>
        have hrefused := register_eq_error_iff.mp ((bindEntry_eq_error_iff_register hb).mp h)
        rcases hrefused with ⟨hkey, rfl⟩ | ⟨hkey, p, hp, rfl⟩
        · exact .name hb hkey
        · exact .type hb hkey hp
  · intro h
    cases h with
    | method hmethod =>
        have hb := HostTable.commandBinding_eq_error_iff.mpr ⟨hmethod, rfl⟩
        rw [bindEntry, ManifestEntry.binding, hb]
        rfl
    | field hfield =>
        have hb := HostTable.variableBinding_eq_error_iff.mpr (.inl ⟨hfield, rfl⟩)
        rw [bindEntry, ManifestEntry.binding, hb]
        rfl
    | constant hfield hwritable hset =>
        have hb := HostTable.variableBinding_eq_error_iff.mpr (.inr ⟨_, hfield, hwritable, hset, rfl⟩)
        rw [bindEntry, ManifestEntry.binding, hb]
        rfl
    | name hb hkey =>
        exact (bindEntry_eq_error_iff_register hb).mpr (register_eq_error_iff.mpr (.inl ⟨hkey, rfl⟩))
    | type hb hkey hp =>
        exact (bindEntry_eq_error_iff_register hb).mpr
          (register_eq_error_iff.mpr (.inr ⟨hkey, _, hp, rfl⟩))

/-- A refusal is a failure of its own, which no evaluation has reported. -/
theorem ManifestEntry.Refused.ne_aborted (h : entry.Refused types table e) : e ≠ .aborted := by
  cases h <;> simp

/-- Entries that are bound in order are none of them refused. -/
theorem Registry.not_refused_of_foldlM {entries : List ManifestEntry} {r' : Registry σ}
    (h : entries.foldlM (bindEntry types table) r = .ok r') :
    ∀ entry ∈ entries, ∀ e, ¬ entry.Refused types table e := by
  induction entries generalizing r with
  | nil => simp
  | cons first entries ih =>
      rw [List.foldlM_cons] at h
      cases hr : r.bindEntry types table first with
      | error e =>
          rw [hr] at h
          cases h
      | ok r₁ =>
          rw [hr] at h
          rw [List.forall_mem_cons]
          refine ⟨?_, ih h⟩
          intro e hrefused
          rw [bindEntry_eq_error_iff.mpr hrefused] at hr
          cases hr

end Refusals

/-! ## Lists of entries -/

namespace Shell

variable {table : HostTable σ} {s t : Shell σ}

theorem report_of_ne (s : Shell σ) {e : ShellError} (he : e ≠ .aborted) :
    s.report e = { s with output := s.output.emit ⟨e.message, .error⟩ } := by
  simp [report, ShellError.isReported, he, emit]

/-- Binding an entry changes the registry alone. -/
theorem bind_entry_eq (table : HostTable σ) (s : Shell σ) (entry : ManifestEntry) :
    (entry.binding table).bind (s.bind entry.name) =
      (s.registry.bindEntry s.types table entry).map fun registry => { s with registry } := by
  unfold Registry.bindEntry
  cases entry.binding table with
  | error e => rfl
  | ok b =>
      simp only [Except.bind, Shell.bind]
      rcases s.registry.register s.types entry.name b with ⟨_ | _, _⟩
      · rfl
      · rfl

/-- How far a list of entries is bound, of which `bound` have been bound before. The induction is on the
    entries; each of them that is bound leaves the conversions as they are. -/
theorem exec_bindEntries (table : HostTable σ) (bound : Nat) (entries : List ManifestEntry) (s : Shell σ) :
    (∃ r, entries.foldlM (Registry.bindEntry s.types table) s.registry = .ok r ∧
      (bindEntries bound (entries.map fun entry => (entry.name, entry.binding table))).exec s =
        (.ok (bound + entries.length), { s with registry := r })) ∨
    ∃ before entry after r e, entries = before ++ entry :: after ∧
      before.foldlM (Registry.bindEntry s.types table) s.registry = .ok r ∧
      entry.Refused s.types table e ∧
      (bindEntries bound (entries.map fun entry => (entry.name, entry.binding table))).exec s =
        (.error e, { s with registry := r, output := s.output.emit ⟨e.message, .error⟩ }) := by
  induction entries generalizing bound s with
  | nil => exact .inl ⟨s.registry, rfl, rfl⟩
  | cons entry entries ih =>
      have hentry := bind_entry_eq table s entry
      cases hr : s.registry.bindEntry s.types table entry with
      | error e =>
          have hrefused := Registry.bindEntry_eq_error_iff.mp hr
          rw [hr, Except.map] at hentry
          refine .inr ⟨[], entry, entries, s.registry, e, rfl, rfl, hrefused, ?_⟩
          rw [List.map_cons, (runs_bindEntries_error hentry).exec, report_of_ne s hrefused.ne_aborted]
      | ok r =>
          rw [hr, Except.map] at hentry
          have hrest := runs_self
            (bindEntries (bound + 1) (entries.map fun entry => (entry.name, entry.binding table)))
            { s with registry := r }
          have hstep := ((runs_bindEntries_ok hentry).mpr ⟨_, hrest, rfl⟩).exec
          rw [List.map_cons, hstep]
          rcases ih (bound + 1) { s with registry := r } with
            ⟨r', hfold, hexec⟩ | ⟨before, refused, after, r', e, rfl, hfold, hrefused, hexec⟩
          · refine .inl ⟨r', ?_, ?_⟩
            · rw [List.foldlM_cons, hr]
              exact hfold
            · rw [hexec, List.length_cons, Nat.add_right_comm]
              rfl
          · refine .inr ⟨entry :: before, refused, after, r', e, rfl, ?_, hrefused, hexec⟩
            rw [List.foldlM_cons, hr]
            exact hfold

/-- Binding entries leaves conversions, calls and levels alone, at every moment. -/
theorem runs_bindEntries_keeps {bound : Nat} {entries : List ManifestEntry} {tr : List (Moment σ)}
    {outcome : Except ShellError Nat}
    (h : (bindEntries bound (entries.map fun entry => (entry.name, entry.binding table))).Runs s tr
      outcome t) :
    ∀ m ∈ tr, m.shell.types = s.types ∧ m.shell.stack = s.stack ∧ m.shell.depth = s.depth := by
  induction entries generalizing bound s tr with
  | nil =>
      obtain ⟨rfl, -, -⟩ := runs_pure.mp h
      simp
  | cons entry entries ih =>
      have hentry := bind_entry_eq table s entry
      rw [List.map_cons] at h
      cases hr : s.registry.bindEntry s.types table entry with
      | error e =>
          rw [hr, Except.map] at hentry
          obtain ⟨rfl, -, -⟩ := h.unique (runs_bindEntries_error hentry)
          have hlevel := s.sameLevel_report e
          simp [(s.sameSetup_report e).types, hlevel.stack, hlevel.depth]
      | ok r =>
          rw [hr, Except.map] at hentry
          obtain ⟨tr', hrest, rfl⟩ := (runs_bindEntries_ok hentry).mp h
          have hkept := ih hrest
          rw [List.forall_mem_cons]
          exact ⟨⟨rfl, rfl, rfl⟩, hkept⟩

/-- And so they are in every state of the run, the last one included. -/
theorem bindEntries_keeps (table : HostTable σ) (bound : Nat) (entries : List ManifestEntry) (s : Shell σ) :
    ∀ u ∈ (bindEntries bound (entries.map fun entry => (entry.name, entry.binding table))).visits s,
      u.types = s.types ∧ u.stack = s.stack ∧ u.depth = s.depth := by
  intro u hu
  rcases mem_visits.mp hu with rfl | ⟨m, hm, rfl⟩ | rfl
  · exact ⟨rfl, rfl, rfl⟩
  · exact runs_bindEntries_keeps (runs_self _ s) m hm
  · rcases exec_bindEntries table bound entries s with
      ⟨r, -, hexec⟩ | ⟨before, entry, after, r, e, -, -, -, hexec⟩ <;>
      rw [hexec] <;> exact ⟨rfl, rfl, rfl⟩

/-! ## Manifests -/

/-- If a manifest is bound, the answer is the number of its entries, the registry is that of all entries
    bound in order, and nothing else has changed. If not, the failure is why the first entry that is
    refused is refused; the registry is that of the entries in front of it, and the failure has been
    written to the output channel as its one new line. Conversions, calls and levels are the same at every
    moment. -/
theorem bindManifest_binds_prefix (s : Shell σ) (m : Manifest) (table : HostTable σ) :
    (match (bindManifest m table).exec s with
      | (.ok n, t) =>
          n = m.entries.length ∧
          ∃ r, m.entries.foldlM (Registry.bindEntry s.types table) s.registry = .ok r ∧
            t = { s with registry := r }
      | (.error e, t) =>
          ∃ i entry, m.entries[i]? = some entry ∧ entry.Refused s.types table e ∧
            (∀ earlier ∈ m.entries.take i, ∀ e', ¬ earlier.Refused s.types table e') ∧
            ∃ r, (m.entries.take i).foldlM (Registry.bindEntry s.types table) s.registry = .ok r ∧
              t = { s with registry := r, output := s.output.emit ⟨e.message, .error⟩ }) ∧
    ∀ u ∈ (bindManifest m table).visits s,
      u.types = s.types ∧ u.stack = s.stack ∧ u.depth = s.depth := by
  have hbind : bindManifest m table =
      bindEntries 0 (m.entries.map fun entry => (entry.name, entry.binding table)) := by
    rw [bindManifest, Manifest.bindings_eq]
  rw [hbind]
  refine ⟨?_, bindEntries_keeps table 0 m.entries s⟩
  rcases exec_bindEntries table 0 m.entries s with
    ⟨r, hfold, hexec⟩ | ⟨before, entry, after, r, e, hentries, hfold, hrefused, hexec⟩
  · rw [hexec]
    exact ⟨Nat.zero_add _, r, hfold, rfl⟩
  · have htake : m.entries.take before.length = before := by rw [hentries, List.take_left]
    rw [hexec]
    refine ⟨before.length, entry, by simp [hentries], hrefused, ?_⟩
    rw [htake]
    exact ⟨Registry.not_refused_of_foldlM hfold, r, hfold, rfl⟩

end Shell
end CommandShell
