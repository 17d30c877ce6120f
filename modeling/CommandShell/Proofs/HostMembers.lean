import CommandShell.Demo.Player
import CommandShell.Proofs.Liveness
import CommandShell.Proofs.ManifestPrefix
import Mathlib.Data.List.TakeWhile

/-!
# `CommandShell.Proofs.HostMembers` — members and the objects they belong to

A member of the host is bound by its path, and belongs to the object that is named in front of the first
dot of the path. The condition of that object goes into the binding, and whoever finds the binding later
asks for it first. So a member of an object without a dot in its name follows its object: when that is
gone the name is removed instead of called. The path of a member of any other object names another
object, or none, and then the member is there forever.

## Contents
- `HostTable.beforeDot`, with `HostTable.owner?_member`, the object that the path of a member names.
- `ManifestEntry.isAlive_of_binding`, the condition that goes into the binding of an entry.
- `Eval.Follows`, a dispatch that follows a condition, and `Eval.follows_iff`.
- `Registry.lookup?_of_bound`, the entry that a manifest leaves bound to a name.
- `HostTable.members_follow_iff`, with an object that its member outlives.
-/

namespace CommandShell

open Eval

variable {σ : Type}

/-! ## Paths -/

namespace HostTable

/-- The part of a name in front of its first dot, which is all of it if there is none. -/
def beforeDot (name : String) : String :=
  String.ofList (name.toList.takeWhile (· ≠ '.'))

theorem takeWhile_append_dot (cs rest : List Char) :
    (cs ++ '.' :: rest).takeWhile (· ≠ '.') = cs.takeWhile (· ≠ '.') := by
  induction cs with
  | nil => rfl
  | cons c cs ih =>
      rw [List.cons_append, List.takeWhile_cons, List.takeWhile_cons, ih]

/-- The object of a member is looked for under the part of its name in front of the first dot. -/
theorem owner?_member (object member : String) :
    owner? (object ++ "." ++ member) = some (beforeDot object) := by
  have hpath : (object ++ "." ++ member).toList = object.toList ++ '.' :: member.toList := by
    rw [String.toList_append, String.toList_append, List.append_assoc]
    rfl
  have hlength := (object.toList.takeWhile_sublist (· ≠ '.')).length_le
  unfold owner? beforeDot
  dsimp only
  rw [hpath, takeWhile_append_dot, if_pos]
  rw [List.length_append, List.length_cons]
  omega

theorem beforeDot_eq_self_iff {name : String} : beforeDot name = name ↔ '.' ∉ name.toList := by
  have htake : beforeDot name = name ↔ name.toList.takeWhile (· ≠ '.') = name.toList := by
    rw [beforeDot, ← String.toList_inj, String.toList_ofList]
  rw [htake, List.takeWhile_eq_self_iff]
  simp only [decide_eq_true_eq]
  exact ⟨fun h hdot => h '.' hdot rfl, fun h c hc hdot => h (hdot ▸ hc)⟩

/-! ## Conditions -/

variable {table : HostTable σ}

/-- Whether there is the object that the members of `object` are taken for: if no object is declared
    under the part of its name in front of the first dot, there always is. -/
def ownerLives (table : HostTable σ) (object : String) (m : Memory σ) : Bool :=
  match table.objects.lookup (beforeDot object) with
  | some alive => alive m
  | none => true

theorem ownerLives_of_no_dot {object : String} {alive : Memory σ → Bool}
    (hobject : table.objects.lookup object = some alive) (hdot : '.' ∉ object.toList) (m : Memory σ) :
    table.ownerLives object m = alive m := by
  rw [ownerLives, beforeDot_eq_self_iff.mpr hdot, hobject]

end HostTable

/-- The path of the member that an entry binds. -/
def ManifestEntry.path : ManifestEntry → String
  | .ofCommand entry => entry.method
  | .ofVariable entry => entry.field

/-- The condition that goes into a binding is that of the owner of the path. -/
theorem ManifestEntry.isAlive_of_binding {table : HostTable σ} {entry : ManifestEntry}
    {object member : String} (hpath : entry.path = object ++ "." ++ member) {b : Binding σ}
    (hb : entry.binding table = .ok b) (m : Memory σ) :
    b.profile.isAlive m = table.ownerLives object m := by
  have halive : b.profile.alive? = table.aliveFor? entry.path := by
    cases entry with
    | ofCommand entry =>
        obtain ⟨method, -, -, halive⟩ := HostTable.exists_of_commandBinding hb
        exact halive
    | ofVariable entry =>
        obtain ⟨field, access, -, -, -, halive⟩ := HostTable.exists_of_variableBinding hb
        exact halive
  rw [hpath, HostTable.aliveFor?, HostTable.owner?_member, Option.bind_some] at halive
  cases hobject : table.objects.lookup (HostTable.beforeDot object) with
  | none => simp only [Profile.isAlive, HostTable.ownerLives, halive, hobject]
  | some alive => simp only [Profile.isAlive, HostTable.ownerLives, halive, hobject]

/-! ## Dispatches -/

namespace Eval

/-- A dispatch that has found its binding and does not look at the condition of it: the arguments are
    converted and the binding is called. -/
def callFound (nested : String → Eval σ Unit) (frame : Frame) (b : Binding σ) : Eval σ Unit := do
  modify fun s => { s with stack := s.stack.push frame }
  let outcome ← attempt do
    let values ← fetchFrom nested 0 b.profile.params
    enter nested ⟨frame, b, ⟨values⟩⟩
  modify fun s => { s with stack := s.stack.pop?.2 }
  liftM outcome

/-- A dispatch follows a condition. If that does not hold, it fails, calls nothing, changes nothing but
    the registry and leaves the name without a binding. If it holds, the dispatch goes on to the
    arguments. -/
structure Follows (lives : Bool) (nested : String → Eval σ Unit) (frame : Frame) (b : Binding σ)
    (s : Shell σ) : Prop where
  gone : lives = false →
    (dispatch nested frame).exec s = (.error (.invalidated frame.name), s.unbind frame.name) ∧
      (dispatch nested frame).notes s = [] ∧
      (s.unbind frame.name).registry.lookup? frame.name = none
  passes : lives = true → ∀ tr r t,
    (dispatch nested frame).Runs s tr r t ↔ (callFound nested frame b).Runs s tr r t

variable {nested : String → Eval σ Unit} {s : Shell σ} {b : Binding σ}

theorem runs_prepare_bind {name : String} {f : Binding σ × Args → Eval σ Unit} {tr : List (Moment σ)}
    {r : Except ShellError Unit} {t : Shell σ} (hb : s.registry.lookup? name = some b)
    (halive : b.profile.isAlive s.memory = true) :
    (prepare nested name >>= f).Runs s tr r t ↔
      (fetchFrom nested 0 b.profile.params >>= fun values => f (b, ⟨values⟩)).Runs s tr r t := by
  rw [prepare, bind_assoc, runs_get_bind, hb]
  dsimp only
  rw [if_pos halive, bind_assoc]
  simp only [pure_bind]

/-- A dispatch follows the condition of the binding it finds. -/
theorem follows_isAlive {frame : Frame} (hb : s.registry.lookup? frame.name = some b) :
    Follows (b.profile.isAlive s.memory) nested frame b s where
  gone hdead := by
    have hrun := runs_dispatch_expired nested hb hdead
    refine ⟨hrun.exec, ?_, s.registry.lookup?_remove frame.name⟩
    rw [notes, hrun.trace]
    rfl
  passes halive tr r t := by
    have hpushed : ({ s with stack := s.stack.push frame } : Shell σ).registry.lookup? frame.name =
        some b := hb
    unfold dispatch callFound
    simp only [runs_modify_bind, runs_attempt_bind, runs_prepare_bind hpushed halive]

/-- Where there are no arguments, a parameter that has to have one is all that can fail. -/
theorem error_of_missing {name : String} {index : Nat} {param : Param} {e : ShellError}
    (h : missing ⟨name, []⟩ index param = .error e) : e = .requiredArgument name index param.name := by
  unfold missing at h
  split at h
  · cases h
  · split at h
    · cases h
    · cases h
      rfl

/-- The induction is on the parameters; the shell stays as it is while they are looked for. -/
theorem error_of_runs_fetchFrom_nil {name : String} {index : Nat} {params : List Param}
    {tr : List (Moment σ)} {e : ShellError} {t : Shell σ} (hframe : s.stack.current = .ok ⟨name, []⟩)
    (h : (fetchFrom nested index params).Runs s tr (.error e) t) :
    ∃ i param, e = .requiredArgument name i param := by
  induction params generalizing index tr with
  | nil => cases (runs_pure.mp h).2.1
  | cons param params ih =>
      rcases runs_bind.mp h with ⟨tr₁, v, u, tr₂, hfirst, hrest, -⟩ | ⟨e', hfirst, he⟩
      · obtain ⟨-, -, rfl⟩ := (runs_fetch_missing hframe rfl).mp hfirst
        rcases runs_bind.mp hrest with ⟨tr₃, vs, w, tr₄, -, hend, -⟩ | ⟨e', hothers, he⟩
        · cases (runs_pure.mp hend).2.1
        · cases he
          exact ih hothers
      · cases he
        exact ⟨index, param.name, error_of_missing ((runs_fetch_missing hframe rfl).mp hfirst).2.1.symm⟩

/-- A call without arguments that goes on to them is made or lacks one: it does not end like a dispatch
    whose target is missing. -/
theorem callFound_not_gone (nested : String → Eval σ Unit) (name : String) (b : Binding σ) (s : Shell σ) :
    ¬ (((callFound nested ⟨name, []⟩ b).exec s).1 = .error (.invalidated name) ∧
      (callFound nested ⟨name, []⟩ b).notes s = []) := by
  rintro ⟨hgone, hnotes⟩
  obtain ⟨tr', hrun, htrace⟩ := runs_modify_bind.mp (runs_self (callFound nested ⟨name, []⟩ b) s)
  obtain ⟨tr₁, outcome, u, tr₂, hcall, hend, rfl⟩ := runs_attempt_bind.mp hrun
  obtain ⟨tr₃, hlast, rfl⟩ := runs_modify_bind.mp hend
  have houtcome := (runs_lift.mp hlast).2.1
  rw [hgone] at houtcome
  rcases runs_bind.mp hcall with ⟨tr₄, vs, v, tr₅, -, henter, rfl⟩ | ⟨e, hfetch, he⟩
  · -- The values are there, so the call is noted.
    obtain ⟨tr₆, -, rfl⟩ := runs_note_bind.mp henter
    have hmem : (Note.call ⟨⟨name, []⟩, b, ⟨vs⟩⟩, v) ∈ (callFound nested ⟨name, []⟩ b).notes s := by
      rw [mem_notes, htrace]
      simp
    rw [hnotes] at hmem
    cases hmem
  · obtain ⟨i, param, hrequired⟩ := error_of_runs_fetchFrom_nil rfl hfetch
    rw [he, hrequired] at houtcome
    cases houtcome

/-- A dispatch without arguments tells a binding that is called from one that is removed. -/
theorem Follows.unique {name : String} {lives lives' : Bool} (h : Follows lives nested ⟨name, []⟩ b s)
    (h' : Follows lives' nested ⟨name, []⟩ b s) : lives = lives' := by
  have hcontradiction (hdead : Follows false nested ⟨name, []⟩ b s)
      (halive : Follows true nested ⟨name, []⟩ b s) : False := by
    obtain ⟨hexec, hnotes, -⟩ := hdead.gone rfl
    have hrun := (halive.passes rfl _ _ _).mp (runs_self (dispatch nested ⟨name, []⟩) s)
    refine callFound_not_gone nested name b s ⟨?_, ?_⟩
    · rw [hrun.exec, hexec]
    · rw [notes, hrun.trace]
      exact hnotes
  cases lives with
  | false =>
      cases lives' with
      | false => rfl
      | true => exact (hcontradiction h h').elim
  | true =>
      cases lives' with
      | false => exact (hcontradiction h' h).elim
      | true => rfl

/-- All dispatches of a name follow a condition exactly if that is what the binding says now. -/
theorem follows_iff {name : String} {lives : Bool} (hb : s.registry.lookup? name = some b) :
    (∀ nested arguments, Follows lives nested ⟨name, arguments⟩ b s) ↔
      b.profile.isAlive s.memory = lives := by
  constructor
  · intro h
    have hsays : Follows (b.profile.isAlive s.memory) (fun _ => pure ()) ⟨name, []⟩ b s :=
      follows_isAlive hb
    exact hsays.unique (h _ [])
  · rintro rfl nested arguments
    exact follows_isAlive hb

end Eval

/-! ## Entries of a manifest -/

namespace Registry

variable {types : Conversions} {table : HostTable σ} {r r' : Registry σ} {entry : ManifestEntry}

theorem bindEntry_eq_ok {b : Binding σ} (hb : entry.binding table = .ok b)
    (h : r.bindEntry types table entry = .ok r') :
    r' = ⟨r.bindings.insert (keyOf entry.name) b⟩ := by
  have haccepts : Accepts types entry.name b := by
    by_contra hrefused
    obtain ⟨e, he⟩ := (exists_error_iff (r := r)).mpr hrefused
    rw [(bindEntry_eq_error_iff_register hb).mpr he] at h
    cases h
  rw [bindEntry, hb, Except.bind, register_of_accepts r haccepts] at h
  cases h
  rfl

/-- An entry that is bound leaves all keys but its own as they are. -/
theorem getElem?_of_bindEntry {key : String} (hkey : keyOf entry.name ≠ key)
    (h : r.bindEntry types table entry = .ok r') : r'.bindings[key]? = r.bindings[key]? := by
  cases hb : entry.binding table with
  | error e =>
      rw [bindEntry, hb] at h
      cases h
  | ok b =>
      rw [bindEntry_eq_ok hb h, Dictionary.getElem?_insert, if_neg hkey]

/-- Entries are bound in order, the first one before the others. -/
theorem exists_of_foldlM_cons {entries : List ManifestEntry}
    (h : (entry :: entries).foldlM (bindEntry types table) r = .ok r') :
    ∃ r₁, r.bindEntry types table entry = .ok r₁ ∧
      entries.foldlM (bindEntry types table) r₁ = .ok r' := by
  rw [List.foldlM_cons] at h
  cases hentry : r.bindEntry types table entry with
  | error e =>
      rw [hentry] at h
      cases h
  | ok r₁ =>
      rw [hentry] at h
      exact ⟨r₁, rfl, h⟩

theorem getElem?_of_foldlM {entries : List ManifestEntry} {key : String}
    (hkeys : ∀ later ∈ entries, keyOf later.name ≠ key)
    (h : entries.foldlM (bindEntry types table) r = .ok r') : r'.bindings[key]? = r.bindings[key]? := by
  induction entries generalizing r with
  | nil =>
      cases h
      rfl
  | cons first entries ih =>
      rw [List.forall_mem_cons] at hkeys
      obtain ⟨r₁, hfirst, hrest⟩ := exists_of_foldlM_cons h
      rw [ih hkeys.2 hrest, getElem?_of_bindEntry hkeys.1 hfirst]

/-- Of the entries that have been bound, the last one under a key is bound to it. -/
theorem lookup?_of_bound {before after : List ManifestEntry} {b : Binding σ}
    (hb : entry.binding table = .ok b)
    (hkeys : ∀ later ∈ after, keyOf later.name ≠ keyOf entry.name)
    (h : (before ++ entry :: after).foldlM (bindEntry types table) r = .ok r') {name : String}
    (hname : Text.lower name = keyOf entry.name) : r'.lookup? name = some b := by
  induction before generalizing r with
  | nil =>
      obtain ⟨r₁, hentry, hrest⟩ := exists_of_foldlM_cons h
      rw [lookup?, hname, getElem?_of_foldlM hkeys hrest, bindEntry_eq_ok hb hentry]
      exact Dictionary.getElem?_insert_self ..
  | cons first before ih =>
      obtain ⟨r₁, -, hrest⟩ := exists_of_foldlM_cons h
      exact ih hrest

end Registry

/-- What a manifest leaves in the registry is a beginning of its entries, bound in order; all of them if
    binding it succeeds. -/
theorem Shell.exists_bound_prefix (s : Shell σ) (m : Manifest) (table : HostTable σ) :
    ∃ bound, bound <+: m.entries ∧
      (((bindManifest m table).exec s).1.toBool = true → bound = m.entries) ∧
      bound.foldlM (Registry.bindEntry s.types table) s.registry =
        .ok ((bindManifest m table).exec s).2.registry := by
  rw [bindManifest, Manifest.bindings_eq]
  rcases exec_bindEntries table 0 m.entries s with
    ⟨r, hfold, hexec⟩ | ⟨before, entry, after, r, e, hentries, hfold, -, hexec⟩
  · rw [hexec]
    exact ⟨m.entries, List.prefix_rfl, fun _ => rfl, hfold⟩
  · rw [hexec]
    refine ⟨before, ⟨entry :: after, hentries.symm⟩, ?_, hfold⟩
    rintro ⟨⟩

/-! ## Members -/

/-- A member of an object with the condition `alive`, however it is bound, follows this condition where
    the object that its path names lives if and only if `alive` holds. That is so in every state if there
    is no dot in the name of the object. Its binding is what a manifest leaves bound to the name of the
    entry, unless a later entry has the same one; and in every later state that still has it, all
    dispatches of the name follow the condition, exactly if the two agree in this state. -/
theorem HostTable.members_follow_iff {table : HostTable σ} {object member : String}
    {alive : Memory σ → Bool} (hobject : table.objects.lookup object = some alive)
    {entry : ManifestEntry} (hpath : entry.path = object ++ "." ++ member) {b : Binding σ}
    (hb : entry.binding table = .ok b) :
    (∀ (s : Shell σ) (m : Manifest), ∃ bound, bound <+: m.entries ∧
      (((Shell.bindManifest m table).exec s).1.toBool = true → bound = m.entries) ∧
      ∀ before after, bound = before ++ entry :: after →
        (∀ later ∈ after, Registry.keyOf later.name ≠ Registry.keyOf entry.name) →
        ∀ name, Text.lower name = Registry.keyOf entry.name →
          ((Shell.bindManifest m table).exec s).2.registry.lookup? name = some b) ∧
    (∀ (s : Shell σ) (name : String), s.registry.lookup? name = some b →
      ((∀ nested arguments, Eval.Follows (alive s.memory) nested ⟨name, arguments⟩ b s) ↔
        table.ownerLives object s.memory = alive s.memory)) ∧
    ('.' ∉ object.toList → ∀ memory, table.ownerLives object memory = alive memory) := by
  refine ⟨fun s m => ?_, fun s name hname => ?_, fun hdot => ownerLives_of_no_dot hobject hdot⟩
  · obtain ⟨bound, hprefix, hall, hfold⟩ := s.exists_bound_prefix m table
    refine ⟨bound, hprefix, hall, ?_⟩
    rintro before after rfl hkeys name hname
    exact Registry.lookup?_of_bound hb hkeys hfold hname
  · rw [Eval.follows_iff hname, ManifestEntry.isAlive_of_binding hpath hb]

/-- The demo host, where `heal` follows the player. -/
theorem HostTable.members_follow_player :
    ∃ entry ∈ Demo.Player.manifest.entries, ∃ b,
      entry.binding (Demo.Player.table .panics .whole) = .ok b ∧ '.' ∉ "player".toList ∧
      ∀ (s : Shell Demo.Player) (name : String), s.registry.lookup? name = some b →
        ∀ nested arguments, Eval.Follows s.memory.host.isAlive nested ⟨name, arguments⟩ b s := by
  let heal : ManifestEntry := .ofCommand
    { name := "heal", method := "player.heal", description? := some "Restore player health" }
  obtain ⟨b, hb⟩ : ∃ b, heal.binding (Demo.Player.table .panics .whole) = .ok b := ⟨_, rfl⟩
  have hpath : heal.path = "player" ++ "." ++ "heal" := rfl
  have hdot : '.' ∉ "player".toList := by decide
  refine ⟨heal, List.mem_cons_self, b, hb, hdot, fun s name hname => ?_⟩
  have hobject : (Demo.Player.table .panics .whole).objects.lookup "player" =
      some fun m : Memory Demo.Player => m.host.isAlive := rfl
  obtain ⟨-, hfollows, hlives⟩ := members_follow_iff hobject hpath hb
  exact (hfollows s name hname).mpr (hlives hdot s.memory)

/-- A host whose state says whether the player of a world is there, and what this player can do. -/
def overworld : HostTable Bool where
  objects := [("world.player", fun m => m.host)]
  methods := [("world.player.heal", { body := fun _ => return some (.int 1) })]

/-- The player of a world is gone, and it is healed all the same. -/
theorem HostTable.member_outlives_object :
    let s := ((Shell.bindManifest { commandEntries := [{ name := "heal", method := "world.player.heal" }] }
      overworld).exec (Shell.start {} false)).2
    overworld.objects.lookup "world.player" = some (fun m => m.host) ∧ s.memory.host = false ∧
      ((Shell.eval "heal").run s).1 = true ∧
      ((Shell.eval "heal").run s).2.registry.contains "heal" = true := by
  refine ⟨rfl, ?_⟩
  decide +kernel

end CommandShell
