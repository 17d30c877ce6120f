import CommandShell.Proofs.Nesting
import CommandShell.Proofs.Variables

/-!
# `CommandShell.Proofs.AliasListing` — the listing of the aliases as a script

Called without arguments, the command for aliases writes a definition for each of them. The listing is
meant to be kept and to be evaluated again somewhere else. A line of it is read as three words, and the
third one is the target as it stands, with its quotes, blocks and semicolons; so the definition binds what
it has been written from.

A definition touches the name that it defines and no other one. The names of a listing are all different,
so none of its lines undoes what another one has done, and the order of the lines does not matter.

## Contents
- `Registry.aliases`, the names and targets that are listed, and `Registry.bindAliases`.
- `Shell.definitions` and `Shell.HasBuiltins.eval_alias`, the listing.
- `Shell.HasBuiltins.eval_aliasDefinition` and `Shell.HasBuiltins.eval_definitions`, one line and many.
- `Shell.eval_alias_replays`.
-/

namespace CommandShell

open Eval

variable {σ τ : Type}

/-! ## The table of the aliases -/

namespace Registry

/-- The aliases that are not hidden, name and target, in order of their names. -/
def aliases (r : Registry σ) : List (String × String) :=
  r.visible.filterMap fun (name, b) => b.profile.aliasTarget?.map (name, ·)

theorem mem_aliases {r : Registry σ} {name target : String} :
    (name, target) ∈ r.aliases ↔ ∃ b, r.bindings[name]? = some b ∧ b.profile.kind ≠ .hidden ∧
      b.profile.aliasTarget? = some target := by
  simp only [aliases, List.mem_filterMap, Option.map_eq_some_iff, Prod.mk.injEq]
  constructor
  · rintro ⟨⟨key, b⟩, hb, _, htarget, rfl, rfl⟩
    obtain ⟨hbound, hkind⟩ := mem_visible.mp hb
    exact ⟨b, hbound, hkind, htarget⟩
  · rintro ⟨b, hbound, hkind, htarget⟩
    exact ⟨(name, b), mem_visible.mpr ⟨hbound, hkind⟩, target, htarget, rfl, rfl⟩

theorem aliases_pairwise (r : Registry σ) : r.aliases.Pairwise fun a b => a.1 < b.1 := by
  refine List.Pairwise.filterMap _ ?_ r.visible_pairwise
  rintro ⟨key, b⟩ ⟨key', b'⟩ hlt entry hentry entry' hentry'
  obtain ⟨_, -, rfl⟩ := Option.map_eq_some_iff.mp hentry
  obtain ⟨_, -, rfl⟩ := Option.map_eq_some_iff.mp hentry'
  exact hlt

/-- Tables with the same entries are equal, for both are in strict order of the names. -/
theorem aliases_congr {r : Registry σ} {r' : Registry τ}
    (h : ∀ entry, entry ∈ r.aliases ↔ entry ∈ r'.aliases) : r.aliases = r'.aliases :=
  eq_of_pairwise_lt r.aliases_pairwise r'.aliases_pairwise h

/-- A table in strict order of the names is the one that is listed if it has the aliases among the
    entries of the registry, in whatever order these stand. -/
theorem aliases_eq_of_perm {r : Registry σ} {table : List (String × String)}
    (hsorted : table.Pairwise fun a b => a.1 < b.1)
    (hperm : table.Perm (r.bindings.entries.filterMap fun (name, b) =>
      if b.profile.kind = .hidden then none else b.profile.aliasTarget?.map (name, ·))) :
    r.aliases = table := by
  refine eq_of_pairwise_lt r.aliases_pairwise hsorted fun ⟨name, target⟩ => ?_
  rw [hperm.mem_iff, mem_aliases, List.mem_filterMap]
  constructor
  · rintro ⟨b, hb, hkind, htarget⟩
    exact ⟨(name, b), Dictionary.mem_entries.mpr hb, by simp [hkind, htarget]⟩
  · rintro ⟨⟨key, b⟩, hb, htarget⟩
    by_cases hkind : b.profile.kind = .hidden
    · simp [hkind] at htarget
    · obtain ⟨_, htarget, heq⟩ := Option.map_eq_some_iff.mp ((if_neg hkind).symm.trans htarget)
      cases heq
      exact ⟨b, Dictionary.mem_entries.mp hb, hkind, htarget⟩

theorem names_nodup (r : Registry σ) : (r.aliases.map (·.1)).Nodup := by
  rw [List.Nodup, List.pairwise_map]
  exact r.aliases_pairwise.imp String.ne_of_lt

/-! ### Aliases that are bound in order -/

/-- Binds each name as an alias for its target. -/
def bindAliases (r : Registry σ) (entries : List (String × String)) : Registry σ :=
  entries.foldl (fun r entry => ⟨r.bindings.insert entry.1 (.ofAlias entry.2)⟩) r

variable {r : Registry σ} {entries : List (String × String)}

/-- A name that is not among them keeps what is bound to it. -/
theorem getElem?_bindAliases_of_ne {key : String} (hkey : ∀ entry ∈ entries, entry.1 ≠ key) :
    (r.bindAliases entries).bindings[key]? = r.bindings[key]? := by
  induction entries generalizing r with
  | nil => rfl
  | cons first others ih =>
      rw [List.forall_mem_cons] at hkey
      exact (ih hkey.2).trans ((Dictionary.getElem?_insert ..).trans (if_neg hkey.1))

/-- Of different names each one is bound to its own target: the names behind it leave it alone. -/
theorem getElem?_bindAliases_of_mem (hnames : (entries.map (·.1)).Nodup) :
    ∀ entry ∈ entries, (r.bindAliases entries).bindings[entry.1]? = some (.ofAlias entry.2) := by
  induction entries generalizing r with
  | nil => simp
  | cons first others ih =>
      rw [List.map_cons, List.nodup_cons] at hnames
      have hothers : ∀ entry ∈ others, entry.1 ≠ first.1 := fun entry hentry heq =>
        hnames.1 (heq ▸ List.mem_map_of_mem hentry)
      rw [List.forall_mem_cons]
      refine ⟨?_, ih hnames.2⟩
      exact (getElem?_bindAliases_of_ne hothers).trans (Dictionary.getElem?_insert_self ..)

/-- To bind aliases under names that are not bound adds them to the table and takes nothing from it. -/
theorem mem_aliases_bindAliases (hnames : (entries.map (·.1)).Nodup)
    (hfree : ∀ entry ∈ entries, r.bindings[entry.1]? = none) (entry : String × String) :
    entry ∈ (r.bindAliases entries).aliases ↔ entry ∈ r.aliases ∨ entry ∈ entries := by
  obtain ⟨name, target⟩ := entry
  by_cases hname : ∃ other ∈ entries, other.1 = name
  · -- The name is bound anew, so the table has the new target for it and cannot have had one before.
    obtain ⟨other, hother, rfl⟩ := hname
    have hbound := getElem?_bindAliases_of_mem (r := r) hnames other hother
    have hunbound : (other.1, target) ∉ r.aliases := by
      rw [mem_aliases]
      rintro ⟨b, hb, -⟩
      rw [hfree other hother] at hb
      cases hb
    have hlisted : (other.1, target) ∈ (r.bindAliases entries).aliases ↔ other.2 = target := by
      simp [mem_aliases, hbound, Binding.ofAlias]
    rw [hlisted, or_iff_right hunbound]
    constructor
    · rintro rfl
      exact hother
    · intro hmem
      exact congrArg Prod.snd (List.inj_on_of_nodup_map hnames hother hmem rfl)
  · have hne : ∀ other ∈ entries, other.1 ≠ name := fun other hother heq =>
      hname ⟨other, hother, heq⟩
    have hnot : (name, target) ∉ entries := fun hmem => hne _ hmem rfl
    rw [mem_aliases, mem_aliases, getElem?_bindAliases_of_ne hne, or_iff_left hnot]

end Registry

namespace Shell

/-! ## The listing -/

/-- Writes the texts, each in a line of its own. -/
def emitAll (s : Shell σ) (texts : List String) : Shell σ :=
  { s with output := texts.foldl (fun ch text => ch.emit ⟨text, .normal⟩) s.output }

/-- A channel that keeps all lines has them behind those that it had before. -/
theorem lines_emitAll {s : Shell σ} (hcapacity : s.output.capacity = 0) (texts : List String) :
    (s.emitAll texts).output.lines = s.output.lines ++ texts.map (Line.mk · .normal) := by
  induction texts generalizing s with
  | nil => exact (List.append_nil _).symm
  | cons text texts ih =>
      have hlines : (s.emit .normal text).output.lines = s.output.lines ++ [⟨text, .normal⟩] := by
        show Channel.retain s.output.capacity _ = _
        rw [hcapacity, Channel.retain_zero]
      have hothers : ((s.emit .normal text).emitAll texts).output.lines = _ := ih hcapacity
      rw [hlines, List.append_assoc] at hothers
      exact hothers

theorem exec_perform_emitAll (nested : String → Eval σ Unit) (texts : List String)
    (next : Unit → Action σ) (s : Shell σ) :
    (perform nested ((texts.forM (Script.emit .normal) : Script σ Unit) next)).exec s =
      (perform nested (next ())).exec (s.emitAll texts) := by
  induction texts generalizing s with
  | nil => rfl
  | cons text texts ih => exact ih (s.emit .normal text)

/-- The lines that define aliases, name and target, in order. -/
def definitions (entries : List (String × String)) : List String :=
  entries.map fun (name, target) => Builtin.aliasDefinition name target

/-- The definitions that the command writes are those of the table. -/
theorem listed_definitions (s : Shell σ) :
    (s.view.visible.filterMap fun (name, profile) =>
        profile.aliasTarget?.map (Builtin.aliasDefinition name)) =
      definitions s.registry.aliases := by
  simp only [definitions, view, Registry.aliases, List.filterMap_map, List.map_filterMap, Option.map_map]
  rfl

namespace HasBuiltins

variable {s : Shell σ} {nested : String → Eval σ Unit}

/-- The command for aliases goes by the arguments of its own call as they are written. -/
theorem exec_dispatch_alias (h : s.HasBuiltins) {arguments : List Argument} {t : Shell σ}
    (hrun : (perform nested (Builtin.aliasWith (arguments.map (·.text))).toAction).exec
      (called s ⟨"alias", arguments⟩) = (.ok none, called t ⟨"alias", arguments⟩)) :
    (dispatch nested ⟨"alias", arguments⟩).exec s = (.ok (), t) := by
  have hbound : s.registry.lookup? "alias" = some Builtin.aliasCommand.toBinding :=
    h.commands Builtin.aliasCommand (by simp [Builtin.all])
  exact exec_dispatch nested t none hbound rfl rfl hrun

theorem exec_alias (h : s.HasBuiltins) :
    (dispatch nested ⟨"alias", []⟩).exec s = (.ok (), s.emitAll (definitions s.registry.aliases)) := by
  refine h.exec_dispatch_alias ?_
  rw [← listed_definitions]
  exact exec_perform_emitAll nested _ _ (called s ⟨"alias", []⟩)

end HasBuiltins

/-! ## Lines of literals -/

section Lines

variable {s : Shell σ}

/-- A line of literals is evaluated as the call that it makes, one level deeper. -/
theorem run_eval_literals {text name : String} {texts : List String} {u : Shell σ}
    (hlevels : s.depth < s.config.maxDepth) (hname : name ≠ "")
    (hread : ReadsAs text.toList ((name :: texts).map (Token.mk .literal)) [])
    (hcall : ∀ nested : String → Eval σ Unit,
      (dispatch nested ⟨name, texts.map (Argument.mk · .literal)⟩).exec (deeper (s.shown text)) =
        (.ok (), u)) :
    (eval text).run s = (true, u.atLevel (s.shown text).depth u.stack) := by
  obtain ⟨hdepth, -, hconfig⟩ := s.sameLevel_shown text
  obtain ⟨levels, hleft⟩ : ∃ levels, (s.shown text).levelsLeft = levels + 1 :=
    ⟨(s.shown text).levelsLeft - 1, by rw [levelsLeft, hdepth, hconfig]; omega⟩
  have hline : (evalBlock text).exec (s.shown text) =
      (.ok (), u.atLevel (s.shown text).depth u.stack) := by
    show (evaluateWithin (s.shown text).levelsLeft text).exec (s.shown text) = _
    rw [hleft, exec_evaluateWithin_of_readsAs levels hread, runStatement_literals _ hname, hcall]
    rfl
  rw [run_eval, hline]
  rfl

/-- To show a line changes the output only. -/
theorem shown_eq (s : Shell σ) (text : String) :
    s.shown text = { s with output := (s.shown text).output } := by
  unfold shown
  split <;> rfl

/-- The line that lists the aliases writes a definition for each of them. -/
theorem HasBuiltins.eval_alias (h : s.HasBuiltins) (hlevels : s.depth < s.config.maxDepth) :
    (eval "alias").run s = (true, (s.shown "alias").emitAll (definitions s.registry.aliases)) := by
  have hread : ReadsAs "alias".toList (["alias"].map (Token.mk .literal)) [] := by
    have hword : PlainWord "alias" := by decide
    exact hword.readsAs
  have hshown := s.sameSetup_shown "alias"
  have hdeeper : (deeper (s.shown "alias")).HasBuiltins :=
    (h.congr hshown).congr (sameSetup_atLevel _ _ _)
  rw [run_eval_literals hlevels (by decide) hread fun nested => hdeeper.exec_alias, ← hshown.registry]
  rfl

end Lines

/-! ## Definitions -/

/-- The shell with each name bound as an alias for its target. -/
def bindAliases (t : Shell τ) (entries : List (String × String)) : Shell τ :=
  { t with registry := t.registry.bindAliases entries }

/-- A name that is not bound is free for everything. -/
theorem kind_of_unbound {t : Shell τ} {name : String} (hfree : t.registry.lookup? name = none)
    (kind : BindingKind) : ∀ p, t.profile? name = some p → p.kind = kind := by
  intro p hp
  rw [profile?, hfree] at hp
  cases hp

/-- An alias with a definition that can be read: its name is kept as it is written and stands in a
    statement as it is, and its target is a text that can be written at all. -/
structure Replayable (name target : String) : Prop where
  plain : PlainName name
  lower : Text.lower name = name
  forwardable : Forwardable target

namespace HasBuiltins

variable {t : Shell τ} {name target : String}

theorem bind_alias (hentry : Replayable name target) :
    t.bind name (.ofAlias target) = .ok (t.bindAliases [(name, target)]) := by
  obtain ⟨hkeyOf, hkey⟩ := Registry.keyOf_of_not_blank hentry.plain.nonempty hentry.plain.unbroken
  refine bind_eq_ok_iff.mpr ⟨hkey, by simp [Binding.ofAlias], ?_⟩
  rw [hkeyOf, hentry.lower]
  rfl

/-- An alias under a name that was not bound takes none of the built-in commands away. -/
theorem bindAlias (h : t.HasBuiltins) (hentry : Replayable name target)
    (hfree : t.registry.lookup? name = none) : (t.bindAliases [(name, target)]).HasBuiltins :=
  h.bind (h.keyOf_ne hentry.plain (kind_of_unbound hfree _)) (bind_alias hentry)

/-- The command binds the second of two words as it stands. -/
theorem exec_defineAlias (h : t.HasBuiltins) (hentry : Replayable name target)
    (hfree : t.registry.lookup? name = none) {nested : String → Eval τ Unit} :
    (dispatch nested ⟨"alias", [name, target].map (Argument.mk · .literal)⟩).exec t =
      (.ok (), t.bindAliases [(name, target)]) := by
  let frame : Frame := ⟨"alias", [name, target].map (Argument.mk · .literal)⟩
  have hunbound : (called t frame).registry.lookup? name = none := hfree
  -- Of two words the second one is the target; only of more than two would they be quoted again.
  have hscript : (Builtin.aliasWith [name, target]).toAction =
      Builtin.requireKind "alias" name .alias fun _ =>
        Script.bind name (.ofAlias target) fun _ => (.done (.ok none) : Action τ) := rfl
  refine h.exec_dispatch_alias ?_
  show (perform nested (Builtin.aliasWith [name, target]).toAction).exec (called t frame) = _
  rw [hscript, exec_requireKind (kind_of_unbound hunbound _)]
  exact exec_perform_bind nested (bind_alias hentry)

/-- A definition is read as three words, of which the last one is the target itself. -/
theorem readsAs_aliasDefinition (hentry : Replayable name target) :
    ReadsAs (Builtin.aliasDefinition name target).toList
      (["alias", name, target].map (Token.mk .literal)) [] := by
  have hword : PlainWord "alias" := by decide
  have htext : Builtin.aliasDefinition name target =
      " ".intercalate ["alias", name, quoteIfNeeded target] := by
    refine String.toList_injective ?_
    simp [Builtin.aliasDefinition]
  rw [htext]
  exact readsAs_literals (.cons hword.nextToken (.cons hentry.plain.plainWord.nextToken
    (.cons (nextToken_quoteIfNeeded hentry.forwardable) .nil)))

/-- A line that defines an alias succeeds and binds it. -/
theorem eval_aliasDefinition (h : t.HasBuiltins) (hlevels : t.depth < t.config.maxDepth)
    (hentry : Replayable name target) (hfree : t.registry.lookup? name = none) :
    ∃ output, (eval (Builtin.aliasDefinition name target)).run t =
      (true, { t.bindAliases [(name, target)] with output }) := by
  let line := Builtin.aliasDefinition name target
  have hshown := t.sameSetup_shown line
  have hdeeper : (deeper (t.shown line)).HasBuiltins := (h.congr hshown).congr (sameSetup_atLevel _ _ _)
  have hunbound : (deeper (t.shown line)).registry.lookup? name = none := by
    show (t.shown line).registry.lookup? name = none
    rw [hshown.registry, hfree]
  refine ⟨(t.shown line).output, ?_⟩
  rw [run_eval_literals hlevels (by decide) (readsAs_aliasDefinition hentry)
    fun nested => hdeeper.exec_defineAlias hentry hunbound]
  show (true, (t.shown line).bindAliases [(name, target)]) = _
  rw [t.shown_eq line]
  rfl

/-- Lines that define aliases under different names that were not bound all succeed, and nothing but the
    registry and the output is changed by them. The induction is on the lines; a line binds its own name
    only, so the names of the others are still free behind it. -/
theorem eval_definitions {entries : List (String × String)} (h : t.HasBuiltins)
    (hlevels : t.depth < t.config.maxDepth)
    (hentries : ∀ entry ∈ entries, Replayable entry.1 entry.2)
    (hnames : (entries.map (·.1)).Nodup)
    (hfree : ∀ entry ∈ entries, t.registry.lookup? entry.1 = none) :
    ∃ output, ((definitions entries).mapM eval).run t =
      (List.replicate entries.length true, { t.bindAliases entries with output }) := by
  induction entries generalizing t with
  | nil => exact ⟨t.output, rfl⟩
  | cons first others ih =>
      rw [List.forall_mem_cons] at hentries hfree
      rw [List.map_cons, List.nodup_cons] at hnames
      obtain ⟨output, hfirst⟩ := h.eval_aliasDefinition hlevels hentries.1 hfree.1
      let u : Shell τ := { t.bindAliases [first] with output }
      have hbound := h.bindAlias hentries.1 hfree.1
      have hu : u.HasBuiltins := ⟨hbound.commands, hbound.conversions⟩
      -- The first line has bound its own name, which none of the other lines defines.
      have hstill : ∀ entry ∈ others, u.registry.lookup? entry.1 = none := by
        intro entry hentry
        have hne : ∀ other ∈ [first], other.1 ≠ Text.lower entry.1 := by
          rw [List.forall_mem_singleton, (hentries.2 entry hentry).lower]
          exact fun heq => hnames.1 (heq ▸ List.mem_map_of_mem hentry)
        exact (Registry.getElem?_bindAliases_of_ne hne).trans (hfree.2 entry hentry)
      obtain ⟨output', hothers⟩ := ih hu hlevels hentries.2 hnames.2 hstill
      refine ⟨output', ?_⟩
      rw [definitions, List.map_cons, List.mapM_cons, StateT.run_bind, hfirst]
      show (((definitions others).mapM eval >>= fun bs => pure (true :: bs) : StateM _ _).run u) = _
      rw [StateT.run_bind, hothers]
      rfl

end HasBuiltins

/-! ## The listing as a script -/

section Replay

variable {s : Shell σ} {t : Shell τ} {config : Config} {host : σ}

/-- In a reachable state the names are keys, so an alias can be defined again if its name is in lower case
    and without delimiters and its target can be written. -/
theorem Reachable.replayable (h : Reachable Policy.unrestricted config host s) {name target : String}
    (hlisted : (name, target) ∈ s.registry.aliases) (hlower : Text.lower name = name)
    (hplain : ∀ c ∈ name.toList, c ∉ ['"', '(', ')', '{', '}', ':', ';'])
    (htarget : Forwardable target) : Replayable name target := by
  obtain ⟨b, hb, -⟩ := Registry.mem_aliases.mp hlisted
  have hkey : Registry.IsKey name := (h.obeys Policy.closed_unrestricted).1.keys hb
  obtain ⟨hne, hunbroken⟩ := Registry.isKey_iff.mp hkey
  exact ⟨⟨hne, hunbroken, hplain⟩, hlower, htarget⟩

/-- The listing of the aliases is a script. In a reachable state of a shell that has its built-in commands,
    keeps all lines and has a level left, let every alias in the listings have a name in lower case without
    delimiters and a target that can be written. Then the command that lists them writes lines which all
    succeed when they are evaluated in order in any shell that has its built-in commands and a level left
    and in which the names are not bound. They bind each name to its target and no other name, so the
    aliases there are those that were there before and the ones of the listing; where there were none, the
    tables are the same. -/
theorem eval_alias_replays (hreachable : Reachable Policy.unrestricted config host s)
    (hs : s.HasBuiltins) (hunbounded : s.config.maxOutputLines = 0)
    (hlevels : s.depth < s.config.maxDepth)
    (hnames : ∀ entry ∈ s.registry.aliases, Text.lower entry.1 = entry.1 ∧
      ∀ c ∈ entry.1.toList, c ∉ ['"', '(', ')', '{', '}', ':', ';'])
    (htargets : ∀ entry ∈ s.registry.aliases, Forwardable entry.2)
    (ht : t.HasBuiltins) (hlevels' : t.depth < t.config.maxDepth)
    (hfree : ∀ entry ∈ s.registry.aliases, t.registry.lookup? entry.1 = none) :
    ∃ (lines : List String) (u : Shell σ) (v : Shell τ),
      (eval "alias").run s = (true, u) ∧
      u.output.lines = (s.shown "alias").output.lines ++ lines.map (Line.mk · .normal) ∧
      (lines.mapM eval).run t = (List.replicate lines.length true, v) ∧
      (∀ entry ∈ s.registry.aliases, v.registry.lookup? entry.1 = some (.ofAlias entry.2)) ∧
      (∀ key, (∀ entry ∈ s.registry.aliases, entry.1 ≠ key) →
        v.registry.bindings[key]? = t.registry.bindings[key]?) ∧
      (∀ entry, entry ∈ v.registry.aliases ↔ entry ∈ t.registry.aliases ∨ entry ∈ s.registry.aliases) ∧
      (t.registry.aliases = [] → v.registry.aliases = s.registry.aliases) := by
  have hcapacity : (s.shown "alias").output.capacity = 0 := by
    rw [(s.sameSetup_shown "alias").capacity, (hreachable.obeys Policy.closed_unrestricted).1.capacity,
      hunbounded]
  have hentries : ∀ entry ∈ s.registry.aliases, Replayable entry.1 entry.2 := fun entry hentry =>
    hreachable.replayable hentry (hnames entry hentry).1 (hnames entry hentry).2 (htargets entry hentry)
  have hunbound : ∀ entry ∈ s.registry.aliases, t.registry.bindings[entry.1]? = none := by
    intro entry hentry
    rw [← (hnames entry hentry).1]
    exact hfree entry hentry
  obtain ⟨output, hreplay⟩ := ht.eval_definitions hlevels' hentries s.registry.names_nodup hfree
  have htable := Registry.mem_aliases_bindAliases s.registry.names_nodup hunbound
  refine ⟨definitions s.registry.aliases, _, { t.bindAliases s.registry.aliases with output },
    hs.eval_alias hlevels, lines_emitAll hcapacity _, ?_, ?_, ?_, htable, ?_⟩
  · rw [hreplay, definitions, List.length_map]
  · intro entry hentry
    rw [Registry.lookup?, (hnames entry hentry).1]
    exact Registry.getElem?_bindAliases_of_mem s.registry.names_nodup entry hentry
  · exact fun key hkey => Registry.getElem?_bindAliases_of_ne hkey
  · intro hnone
    refine Registry.aliases_congr fun entry => (htable entry).trans ?_
    rw [hnone, or_iff_right List.not_mem_nil]

/-- Aliases for a text with a brace between quotes, for nothing, and for statements with a block. -/
def storedAliases : List (String × String) :=
  [("hi", "echo \"big \x7b world\""), ("none", ""), ("two", "print a; exec \x7bb; c\x7d")]

/-- A shell that starts with these aliases and keeps all lines. -/
def storing : Shell Unit :=
  start { aliases := storedAliases, maxOutputLines := 0 } ()

/-- The aliases are listed by one shell and defined again in another one that has none. -/
theorem eval_alias_replays_quoted :
    ∃ (lines : List String) (u v : Shell Unit), (eval "alias").run storing = (true, u) ∧
      u.output.lines = (storing.shown "alias").output.lines ++ lines.map (Line.mk · .normal) ∧
      (lines.mapM eval).run (start {} () : Shell Unit) = (List.replicate lines.length true, v) ∧
      v.registry.aliases = storedAliases := by
  have hothers : ∀ entry ∈ storedAliases, Registry.keyOf entry.1 ∉ ["print", "echo", "warn", "help",
      "which", "alias", "unalias", "var", "unset", "if", "repeat", "exec", "eq", "not"] := by
    decide +kernel
  have hs : storing.HasBuiltins := by
    rw [storing, start_eq_configured rfl]
    refine hasBuiltins_configured rfl (fun entry hentry c hc hkey => hothers entry hentry ?_) ()
    rw [hkey, ← Builtin.map_name_all (σ := Unit)]
    exact List.mem_map_of_mem hc
  have ht : (start {} () : Shell Unit).HasBuiltins := by
    rw [start_eq_configured rfl]
    exact hasBuiltins_configured rfl (by simp) ()
  have hlower : ∀ entry ∈ storedAliases, Text.lower entry.1 = entry.1 := by decide +kernel
  have hplain : ∀ entry ∈ storedAliases, PlainName entry.1 := by decide
  have htargets : ∀ entry ∈ storedAliases, Forwardable entry.2 := by decide
  have hlisted : storing.registry.aliases = storedAliases :=
    Registry.aliases_eq_of_perm (by decide +kernel) (by decide +kernel)
  have hempty : (start {} () : Shell Unit).registry.aliases = [] :=
    Registry.aliases_eq_of_perm .nil (by decide +kernel)
  have hfree : ∀ entry ∈ storedAliases,
      ((start {} () : Shell Unit).registry.lookup? entry.1).isNone = true := by
    decide +kernel
  have hreachable : Reachable Policy.unrestricted _ () storing :=
    reachable_start Policy.closed_unrestricted _ ()
  rw [← hlisted] at hlower hplain htargets hfree
  obtain ⟨lines, u, v, hlist, hlines, hreplay, -, -, -, hsame⟩ :=
    eval_alias_replays hreachable hs (by decide +kernel) (by decide +kernel)
      (fun entry hentry => ⟨hlower entry hentry, (hplain entry hentry).plain⟩) htargets ht
      (by decide +kernel) fun entry hentry => Option.isNone_iff_eq_none.mp (hfree entry hentry)
  exact ⟨lines, u, v, hlist, hlines, hreplay, (hsame hempty).trans hlisted⟩

end Replay
end Shell
end CommandShell
