import CommandShell.Proofs.Commands
import CommandShell.Proofs.Evaluation.Reachable

/-!
# `CommandShell.Proofs.Protection` — what input can do to the bindings of the host

The commands that bind and remove names look a name up first, and leave it alone when it is bound as
something else. They look it up as it is given, but it is registered without the white space around it.
So a name with white space around it passes as free, and then replaces what its trimmed form is bound
to.

That is the only way for a line of input to touch a command, where the commands of the host neither
bind names nor go away: a command keeps its name exactly if no call of `alias` or `var` gives this name
with white space around it.

## Contents
- `Action.Nameless` and `Binding.Harmless`, with `Policy.guarded`.
- `Call.Defines` and `Moment.Displaces`.
- `Contract.guarding` and its lawfulness.
- `Binding.IsCommand` and `Shell.Reachable.keeps_command_iff`, with the shortest line that replaces a
  command.
-/

namespace CommandShell

open Contract

variable {σ α : Type}

/-! ## Harmless bindings -/

/-- The command binds and removes no names. -/
def Action.Nameless : Action σ → Prop
  | .done _ => True
  | .inspect next => ∀ s : Shell σ, (next s.view).Nameless
  | .update _ next => next.Nameless
  | .emit _ next => next.Nameless
  | .popLast next => ∀ line?, (next line?).Nameless
  | .drain next => ∀ lines, (next lines).Nameless
  | .evalBlock _ next => ∀ r, (next r).Nameless
  | .resolve _ next => ∀ r, (next r).Nameless
  | .fetch _ _ next => ∀ r, (next r).Nameless
  | .convert _ _ next => ∀ r, (next r).Nameless
  | .bind _ _ _ _ => False
  | .unbind _ _ => False
  | .registerType _ _ next => next.Nameless

/-- The target of the binding always exists, and its call binds and removes no names. -/
structure Binding.Harmless (b : Binding σ) : Prop where
  alive : ∀ m, b.profile.isAlive m = true
  nameless : ∀ args, (b.run args).Nameless

/-- The policy that allows the built-in commands, harmless bindings and every conversion. -/
def Policy.guarded : Policy σ where
  binding b := (∃ c ∈ Builtin.all, b = c.toBinding) ∨ b.Harmless

/-- Most requests have nothing to do with names. -/
theorem Action.tame_nameless : Action.Tame (fun _ => True) (Action.Nameless : Action σ → Prop) where
  own _ _ := trivial
  answer _ := trivial
  failure _ := trivial
  inspect h := h
  update _ h := h
  emit _ h := h
  evalBlock _ h := fun r => h r fun _ _ => trivial

theorem Binding.harmless_ofAlias (target : String) : (ofAlias target : Binding σ).Harmless where
  alive _ := rfl
  nameless := tame_ofAlias Action.tame_nameless target

theorem Binding.harmless_ofCell (type : ValueType) (index : Nat) (text : String) :
    ((ofCell type index).withDescription text : Binding σ).Harmless where
  alive _ := rfl
  nameless := tame_ofCell Action.tame_nameless type index

/-- Aliases and variables in cells are harmless, so a guarded command may bind them. -/
theorem Action.naming_guarded :
    Action.Naming (fun _ => True) (fun a : Action σ => a.Obeys Policy.guarded) where
  own _ _ := trivial
  answer _ := trivial
  failure _ := trivial
  inspect h := h
  update _ h := h
  emit _ h := h
  evalBlock _ h := fun r => h r fun _ _ => trivial
  bindAlias h := ⟨.inr (Binding.harmless_ofAlias _), fun r _ => h r fun _ _ => trivial⟩
  bindCell h := ⟨.inr (Binding.harmless_ofCell .text _ _), fun r _ => h r fun _ _ => trivial⟩
  unbind h := h

theorem Action.Nameless.obeys {a : Action σ} (h : a.Nameless) : a.Obeys Policy.guarded := by
  have hnameless : Action.Hereditary (Policy.guarded : Policy σ) Action.Nameless := {
    bind := False.elim
    unbind := False.elim
    registerType := fun h => ⟨trivial, h⟩ }
  exact hnameless.obeys h

/-- The built-in commands are allowed for what they are, and all others do not touch names. -/
theorem Policy.closed_guarded : (Policy.guarded : Policy σ).Closed where
  bodies := by
    rintro b (⟨c, hc, rfl⟩ | hb) args
    · exact Builtin.naming Action.naming_guarded hc (.inl fun _ _ => trivial)
    · exact (hb.nameless args).obeys
  builtins c hc := .inl ⟨c, hc, rfl⟩
  aliases target := .inr (Binding.harmless_ofAlias target)

theorem alive_of_guarded {b : Binding σ} (hb : Policy.guarded.binding b) (m : Memory σ) :
    b.profile.isAlive m = true := by
  rcases hb with ⟨c, -, rfl⟩ | hb
  · rfl
  · exact hb.alive m

/-! ## Definitions -/

/-- The call makes an alias or a variable of this name: it is a call of `alias` with a name and words
    for its target, or a call of `var` whose arguments are texts. -/
def Call.Defines (c : Call σ) (name : String) : Prop :=
  (c.binding = Builtin.aliasCommand.toBinding ∧ ∃ word words, c.frame.texts = name :: word :: words) ∨
    (c.binding = Builtin.var.toBinding ∧ c.args.text 0 = .ok name ∧ ∃ content, c.args.text 1 = .ok content)

/-- The names that a call can define, whatever it calls. -/
def Call.names (c : Call σ) : List String :=
  c.frame.texts.take 1 ++ (c.args.text 0).toOption.toList

/-- The name that is defined is the first word of the frame, or the first argument. -/
theorem Call.Defines.mem_names {c : Call σ} {name : String} (h : c.Defines name) : name ∈ c.names := by
  rw [names, List.mem_append]
  rcases h with ⟨-, word, words, htexts⟩ | ⟨-, hname, -⟩
  · exact .inl (by simp [htexts])
  · exact .inr (by simp [hname, Except.toOption])

/-- At this moment a name is defined with white space around it that without it is the key. -/
def Moment.Displaces (key : String) (m : Moment σ) : Prop :=
  ∃ c name, m.note? = some (.call c) ∧ c.Defines name ∧ Registry.keyOf name = key ∧
    Text.trim name ≠ name

/-! ## Commands -/

/-- What is bound as a command, in listings or not. -/
def Binding.IsCommand (b : Binding σ) : Prop :=
  b.profile.kind = .command ∨ b.profile.kind = .hidden

theorem Binding.IsCommand.ne_alias {b : Binding σ} (hb : b.IsCommand) : b.profile.kind ≠ .alias := by
  rcases hb with hb | hb <;> simp [hb]

theorem Binding.IsCommand.ne_variable {b : Binding σ} (hb : b.IsCommand) :
    b.profile.kind ≠ .variable := by
  rcases hb with hb | hb <;> simp [hb]

/-! ## The contract -/

/-- The shell has this binding under the key. -/
def Shell.Has (s : Shell σ) (key : String) (b : Binding σ) : Prop :=
  s.registry.bindings[key]? = some b

/-- A run ends with the binding under its key exactly if it begins with it and does not displace it. -/
def Contract.guarding (key : String) (b : Binding σ) : Contract σ :=
  Policy.guarded.contract fun s tr _ t => t.Has key b ↔ s.Has key b ∧ ∀ m ∈ tr, ¬ m.Displaces key

section Guarding

variable {key : String} {b : Binding σ} {s t u : Shell σ} {tr tr' : List (Moment σ)}

theorem not_displaces_none (u : Shell σ) : ¬ (⟨u, none⟩ : Moment σ).Displaces key := by
  rintro ⟨c, name, hc, -⟩
  cases hc

/-- Moments without notes displace nothing. -/
theorem forall_not_displaces_snoc {v : Shell σ} :
    (∀ m ∈ tr ++ [⟨v, none⟩], ¬ m.Displaces key) ↔ ∀ m ∈ tr, ¬ m.Displaces key := by
  rw [List.forall_mem_append, List.forall_mem_singleton]
  exact and_iff_left (not_displaces_none v)

/-- A change that leaves the key bound as it is may be added at the end. -/
theorem guarding_snoc {e? e?' : Option ShellError} (h : (guarding key b).rel s tr e? t)
    (hu : u.Has key b ↔ t.Has key b) : (guarding key b).rel s (tr ++ [⟨u, none⟩]) e?' u := by
  show u.Has key b ↔ s.Has key b ∧ ∀ m ∈ tr ++ [⟨u, none⟩], ¬ m.Displaces key
  rw [forall_not_displaces_snoc, hu]
  exact h

/-- The key is bound in the end if it is in between and nothing displaces it later, either. -/
theorem guarding_trans {e? e?' : Option ShellError} (h : (guarding key b).rel s tr e? t)
    (h' : (guarding key b).rel t tr' e?' u) : (guarding key b).rel s (tr ++ tr') e?' u := by
  show u.Has key b ↔ s.Has key b ∧ ∀ m ∈ tr ++ tr', ¬ m.Displaces key
  have h : t.Has key b ↔ s.Has key b ∧ ∀ m ∈ tr, ¬ m.Displaces key := h
  have h' : u.Has key b ↔ t.Has key b ∧ ∀ m ∈ tr', ¬ m.Displaces key := h'
  rw [h', h, List.forall_mem_append, and_assoc]

theorem admitsParse_guarding {p : Parse α} (h : (guarding key b).rel s tr none t) :
    (guarding key b).AdmitsParse s p tr t := by
  induction p generalizing tr t with
  | done result => exact h
  | resolve expression next ih =>
      intro r tr' u hu
      exact ih r (guarding_trans h hu.rel)

/-- A command that touches no name displaces nothing. -/
theorem admits_nameless {a : Action σ} (ha : a.Nameless) (ht : t.Obeys Policy.guarded)
    (h : (guarding key b).rel s tr none t) : (guarding key b).Admits s a tr t := by
  induction a generalizing tr t with
  | done result => exact h
  | inspect next ih => exact ih _ (ha t) ht h
  | update change next ih => exact ih ha (ht.congr (t.sameSetup_update change)) (guarding_snoc h .rfl)
  | emit line next ih => exact ih ha (ht.congr (t.sameSetup_emit line)) (guarding_snoc h .rfl)
  | popLast next ih => exact ih _ (ha _) (ht.congr t.sameSetup_popLast) (guarding_snoc h .rfl)
  | drain next ih => exact ih _ (ha _) (ht.congr t.sameSetup_drain) (guarding_snoc h .rfl)
  | evalBlock text next ih | resolve expression next ih =>
      intro r tr' u hu
      exact ih r (ha r) hu.inv (guarding_trans h hu.rel)
  | fetch index param next ih =>
      intro r tr' u hu
      exact ih r (ha r) hu.inv (guarding_trans h hu.rel)
  | convert type text next ih =>
      intro r tr' u hu
      exact ih r (ha r) hu.inv (guarding_trans h hu.rel)
  | bind name profile body next _ ih => exact ha.elim
  | unbind name next ih => exact ha.elim
  | registerType type parser next ih =>
      have hobeys := ht.registerType (show Policy.guarded.conversion type parser from trivial)
      exact ⟨hobeys, ih ha hobeys (guarding_snoc h .rfl)⟩

/-! ### Removing a name -/

/-- A lookup by a script, step by step. -/
theorem Script.lookup_apply (name : String) (next : Profile σ → Action σ) :
    Script.lookup name next = .inspect fun v =>
      (v.lookup name).elim (.done (.error (.undefinedLocal name))) next := by
  refine congrArg Action.inspect (funext fun v => ?_)
  dsimp only
  cases v.lookup name with
  | none => rfl
  | some profile => rfl

section Lookup

variable {C : Contract σ} {name : String} {next : Profile σ → Action σ}

theorem admits_lookup_some {p : Profile σ} (hp : t.profile? name = some p) :
    C.Admits s (Script.lookup name next) tr t ↔ C.Admits s (next p) tr t := by
  rw [Script.lookup_apply]
  show C.Admits s ((t.profile? name).elim _ next) tr t ↔ _
  rw [hp]
  rfl

theorem admits_lookup_none (hp : t.profile? name = none) :
    C.Admits s (Script.lookup name next) tr t ↔
      C.Admits s (.done (.error (.undefinedLocal name))) tr t := by
  rw [Script.lookup_apply]
  show C.Admits s ((t.profile? name).elim _ next) tr t ↔ _
  rw [hp]
  rfl

end Lookup

theorem Shell.Has.profile {name : String} (h : t.Has (Text.lower name) b) :
    t.profile? name = some b.profile := by
  simp only [Shell.profile?, Registry.lookup?]
  rw [show t.registry.bindings[Text.lower name]? = some b from h]
  rfl

/-- Removing what is bound as something else leaves the binding alone. -/
theorem has_unbind_iff {name : String} {p : Profile σ} (hp : t.profile? name = some p)
    (hkind : b.profile.kind ≠ p.kind) : (t.unbind name).Has key b ↔ t.Has key b := by
  refine ⟨Shell.getElem?_unbind, fun h => ?_⟩
  have hne : Text.lower name ≠ key := by
    rintro rfl
    rw [h.profile] at hp
    cases hp
    exact hkind rfl
  simp only [Shell.Has, Shell.unbind, Registry.remove, Dictionary.getElem?_erase, if_neg hne]
  exact h

/-- The removal of a name that has to be of a kind: where it is not, the command ends, and where it is,
    it is not the binding in question. -/
theorem admits_removeKind {name : String} {kind : BindingKind} (hkind : b.profile.kind ≠ kind)
    (ht : t.Obeys Policy.guarded) (h : (guarding key b).rel s tr none t) :
    (guarding key b).Admits s (Builtin.removeKind name kind).toAction tr t := by
  cases hp : t.profile? name with
  | none => exact (admits_lookup_none hp).mpr h
  | some p =>
      refine (admits_lookup_some hp).mpr ?_
      by_cases hpk : p.kind ≠ kind
      · show (guarding key b).Admits s ((if p.kind ≠ kind then _ else _ : Script σ _) _) tr t
        rw [if_pos hpk]
        exact h
      · show (guarding key b).Admits s ((if p.kind ≠ kind then _ else _ : Script σ _) _) tr t
        rw [if_neg hpk]
        have hpk : p.kind = kind := by simpa using hpk
        exact ⟨ht.unbind name, guarding_snoc h (has_unbind_iff hp (by rwa [hpk]))⟩

/-! ### Defining a name -/

section Define

variable {name : String} {kind : BindingKind} {new : Binding σ}

/-- What a definition leaves of the binding, when the name was not found as something else: the name is
    not the key, or it has white space around it and the binding is gone. -/
theorem has_bind_iff (hpass : ∀ p, t.profile? name = some p → p.kind = kind)
    (hkind : b.profile.kind ≠ kind) (hnew : new.profile.kind = kind) (hu : t.bind name new = .ok u) :
    u.Has key b ↔ t.Has key b ∧ (Registry.keyOf name = key → Text.trim name = name) := by
  rw [Shell.bind_eq hu, Shell.Has, Dictionary.getElem?_insert]
  by_cases hkey : Registry.keyOf name = key
  · -- The binding is replaced. With no white space to trim it would have been found first.
    rw [if_pos hkey]
    constructor
    · intro h
      cases h
      exact absurd hnew hkind
    · rintro ⟨h, htrim⟩
      rw [← hkey, Registry.keyOf_of_trim_eq (htrim hkey)] at h
      exact absurd (hpass _ h.profile) hkind
  · rw [if_neg hkey]
    exact ⟨fun h => ⟨h, fun heq => absurd heq hkey⟩, And.left⟩

/-- A name that is found has no white space around it. -/
theorem trim_eq_of_found {p : Profile σ} (ht : t.Obeys Policy.guarded)
    (hp : t.profile? name = some p) : Text.trim name = name := by
  obtain ⟨found, hfound, -⟩ := Option.map_eq_some_iff.mp hp
  by_cases htrim : Text.trim name = name
  · exact htrim
  · exact absurd (ht.keys hfound) (Registry.not_isKey_of_padded htrim)

/-- The name of a binding is not refused. -/
theorem keyOf_ne_of_refused {e : ShellError} (ht : t.Obeys Policy.guarded)
    (hparams : ∀ p ∈ new.profile.params, p.type = .text) (he : t.bind name new = .error e)
    (h : t.Has key b) : Registry.keyOf name ≠ key := by
  intro hkey
  have hisKey : Registry.IsKey (Registry.keyOf name) := by
    rw [hkey]
    exact ht.keys h
  have htypes : ∀ p ∈ new.profile.params, t.types.supports p.type = true := by
    intro p hp
    rw [hparams p hp]
    exact ht.text
  have hok := Shell.bind_eq_ok_iff.mpr ⟨hisKey, htypes, rfl⟩
  rw [he] at hok
  cases hok

/-- The guard of a definition, step by step. -/
theorem Builtin.requireKind_apply (command name : String) (kind : BindingKind)
    (next : Unit → Action σ) :
    Builtin.requireKind command name kind next = .inspect fun v =>
      (v.lookup name).elim (next ()) fun existing =>
        if existing.kind ≠ kind then
          .done (.error (.command
            (command ++ ": '" ++ name ++ "' is already bound as a " ++ existing.kind.name)))
        else next () := by
  refine congrArg Action.inspect (funext fun v => ?_)
  dsimp only
  cases v.lookup name with
  | none => rfl
  | some existing =>
      rw [Option.elim_some]
      by_cases hkind : existing.kind ≠ kind
      · rw [if_pos hkind]
        exact congrFun (if_pos hkind) next
      · rw [if_neg hkind]
        exact congrFun (if_neg hkind) next

/-- The call of a command that looks the name up before it defines it. Where the name is found as
    something else the command ends; this concerns no key with white space around it. -/
theorem admits_requireKind {command : String} {next : Unit → Action σ} (ht : t.Obeys Policy.guarded)
    (hst : t.Has key b ↔ s.Has key b)
    (hnotes : (∀ m ∈ tr, ¬ m.Displaces key) ↔ (Registry.keyOf name = key → Text.trim name = name))
    (hnext : (∀ p, t.profile? name = some p → p.kind = kind) → (guarding key b).Admits s (next ()) tr t) :
    (guarding key b).Admits s (Builtin.requireKind command name kind next) tr t := by
  rw [Builtin.requireKind_apply]
  show (guarding key b).Admits s ((t.profile? name).elim _ _) tr t
  cases hp : t.profile? name with
  | none => exact hnext (by simp [hp])
  | some p =>
      rw [Option.elim_some]
      by_cases hpk : p.kind ≠ kind
      · rw [if_pos hpk]
        show t.Has key b ↔ s.Has key b ∧ ∀ m ∈ tr, ¬ m.Displaces key
        rw [hst, hnotes]
        exact (and_iff_left fun _ => trim_eq_of_found ht hp).symm
      · rw [if_neg hpk]
        apply hnext
        intro p' hp'
        rw [hp] at hp'
        cases hp'
        simpa using hpk

/-- The definition itself. -/
theorem admits_bind (ht : t.Obeys Policy.guarded) (hst : t.Has key b ↔ s.Has key b)
    (hnotes : (∀ m ∈ tr, ¬ m.Displaces key) ↔ (Registry.keyOf name = key → Text.trim name = name))
    (hpass : ∀ p, t.profile? name = some p → p.kind = kind) (hkind : b.profile.kind ≠ kind)
    (hnew : new.profile.kind = kind) (hparams : ∀ p ∈ new.profile.params, p.type = .text)
    (hharmless : new.Harmless) :
    (guarding key b).Admits s (Script.bind name new fun _ => .done (.ok none)) tr t := by
  refine ⟨?_, ?_⟩
  · intro u hu
    have hobeys := ht.bind (.inr hharmless) hu
    refine ⟨hobeys, ?_⟩
    show u.Has key b ↔ s.Has key b ∧ ∀ m ∈ tr ++ [⟨u, none⟩], ¬ m.Displaces key
    rw [forall_not_displaces_snoc, hnotes, ← hst]
    exact has_bind_iff hpass hkind hnew hu
  · intro e he
    show t.Has key b ↔ s.Has key b ∧ ∀ m ∈ tr, ¬ m.Displaces key
    rw [hnotes, ← hst]
    refine ⟨fun h => ⟨h, fun hkey => ?_⟩, And.left⟩
    exact absurd hkey (keyOf_ne_of_refused ht hparams he h)

/-- The definition is refused where the name is that of a command, unless white space hides it. -/
theorem admits_defineAlias {target : String} (ht : t.Obeys Policy.guarded)
    (hkind : b.profile.kind ≠ .alias) (hst : t.Has key b ↔ s.Has key b)
    (hnotes : (∀ m ∈ tr, ¬ m.Displaces key) ↔ (Registry.keyOf name = key → Text.trim name = name)) :
    (guarding key b).Admits s (Builtin.defineAlias name target).toAction tr t := by
  refine admits_requireKind ht hst hnotes fun hpass => ?_
  refine admits_bind ht hst hnotes hpass hkind rfl ?_ (Binding.harmless_ofAlias target)
  simp [Binding.ofAlias]

end Define

/-! ### Calls -/

section Calls

variable {c : Call σ}

/-- The two commands have different usage lines. -/
theorem toBinding_alias_ne_var :
    (Builtin.aliasCommand.toBinding : Binding σ) ≠ Builtin.var.toBinding := by
  intro h
  have husage := congrArg (fun b => b.profile.usage?) h
  simp [Command.toBinding, Builtin.aliasCommand, Builtin.var, Binding.withDescription,
    Binding.withUsage] at husage

/-- The note of a call that defines nothing. -/
theorem rel_call (hdefines : ∀ name, ¬ c.Defines name) :
    (guarding key b).rel s [⟨s, some (.call c)⟩] none s := by
  refine (and_iff_left ?_).symm
  rw [List.forall_mem_singleton]
  rintro ⟨c', name, hc', hdef, -⟩
  cases hc'
  exact hdefines name hdef

/-- The note of a call that defines one name. -/
theorem not_displaces_call_iff (s : Shell σ) (key : String) {name : String}
    (hdefines : ∀ other, c.Defines other ↔ other = name) :
    (∀ m ∈ [(⟨s, some (.call c)⟩ : Moment σ)], ¬ m.Displaces key) ↔
      (Registry.keyOf name = key → Text.trim name = name) := by
  rw [List.forall_mem_singleton]
  constructor
  · intro h hkey
    by_cases htrim : Text.trim name = name
    · exact htrim
    · exact absurd ⟨c, name, rfl, (hdefines name).mpr rfl, hkey, htrim⟩ h
  · rintro h ⟨c', other, hc', hdef, hkey, htrim⟩
    cases hc'
    cases (hdefines other).mp hdef
    exact htrim (h hkey)

theorem admits_lift_ok {C : Contract σ} {r : Except ShellError α} {a : α} {next : α → Action σ}
    (hr : r = .ok a) : C.Admits s ((liftM r : Script σ α) next) tr t ↔ C.Admits s (next a) tr t := by
  rw [hr]
  rfl

theorem admits_lift_error {C : Contract σ} {r : Except ShellError α} {e : ShellError}
    {next : α → Action σ} (hr : r = .error e) :
    C.Admits s ((liftM r : Script σ α) next) tr t ↔ C.Admits s (.done (.error e)) tr t := by
  rw [hr]
  rfl

theorem admits_frame {C : Contract σ} {f : Frame} {next : Frame → Action σ}
    (hframe : t.stack.current = .ok f) :
    C.Admits s (Script.frame next) tr t ↔ C.Admits s (next f) tr t := by
  show C.Admits s ((liftM t.stack.current : Script σ Frame) next) tr t ↔ _
  rw [hframe]
  rfl

theorem admits_alias (hs : s.Obeys Policy.guarded) (hkind : b.profile.kind ≠ .alias)
    (hc : c.binding = Builtin.aliasCommand.toBinding) (hframe : s.stack.current = .ok c.frame) :
    (guarding key b).Admits s (c.binding.run c.args) [⟨s, some (.call c)⟩] s := by
  have hQ := (Action.tame_nameless : Action.Tame (fun _ => True) (Action.Nameless : Action σ → Prop))
  have hdefines (name : String) :
      c.Defines name ↔ ∃ word words, c.frame.texts = name :: word :: words := by
    simp [Call.Defines, hc, toBinding_alias_ne_var]
  rw [hc]
  refine (admits_frame hframe).mpr ?_
  show (guarding key b).Admits s (Builtin.aliasWith c.frame.texts).toAction _ s
  -- Without a target nothing is defined: the aliases are listed, or one of them is shown.
  rcases htexts : c.frame.texts with _ | ⟨name, _ | ⟨word, words⟩⟩
  · have hnone : ∀ name, ¬ c.Defines name := by simp [hdefines, htexts]
    have hlist := Builtin.yields_listAliases hQ
    exact admits_nameless (hlist.toAction hQ) hs (rel_call hnone)
  · have hnone : ∀ name, ¬ c.Defines name := by simp [hdefines, htexts]
    have htarget := Builtin.yields_aliasTarget hQ name
    have hanswer := Script.yields_bind htarget fun target => Script.yields_pure (some (Value.text target))
    exact admits_nameless (hanswer.toAction hQ) hs (rel_call hnone)
  · have hone (other : String) : c.Defines other ↔ other = name := by
      simp only [hdefines, htexts, List.cons.injEq, exists_and_left, exists_eq', and_true]
      exact eq_comm
    have hnotes := not_displaces_call_iff s key hone
    cases words with
    | nil => exact admits_defineAlias hs hkind .rfl hnotes
    | cons word' words => exact admits_defineAlias hs hkind .rfl hnotes

theorem admits_var (hs : s.Obeys Policy.guarded) (hkind : b.profile.kind ≠ .variable)
    (hc : c.binding = Builtin.var.toBinding) :
    (guarding key b).Admits s (c.binding.run c.args) [⟨s, some (.call c)⟩] s := by
  have hdefines (name : String) :
      c.Defines name ↔ c.args.text 0 = .ok name ∧ ∃ content, c.args.text 1 = .ok content := by
    simp [Call.Defines, hc, toBinding_alias_ne_var.symm]
  rw [hc]
  cases hname : c.args.text 0 with
  | error e =>
      have hnone : ∀ name, ¬ c.Defines name := by simp [hdefines, hname]
      exact (admits_lift_error hname).mpr (rel_call hnone)
  | ok name =>
      refine (admits_lift_ok hname).mpr ?_
      cases hcontent : c.args.text 1 with
      | error e =>
          have hnone : ∀ name, ¬ c.Defines name := by simp [hdefines, hcontent]
          exact (admits_lift_error rfl).mpr (rel_call hnone)
      | ok content =>
          refine (admits_lift_ok rfl).mpr ?_
          have hone (other : String) : c.Defines other ↔ other = name := by
            simp only [hdefines, hname, hcontent, Except.ok.injEq, exists_eq', and_true]
            exact eq_comm
          have hnotes := not_displaces_call_iff s key hone
          refine admits_requireKind hs .rfl hnotes fun hpass => ?_
          -- The cell is made before the name is bound; it is no part of the registry.
          let u : Shell σ := { s with memory := s.memory.addCell (.text content) }
          have hu : u.Obeys Policy.guarded := hs.congr (s.sameSetup_update (·.addCell (.text content)))
          refine admits_bind hu .rfl (forall_not_displaces_snoc.trans hnotes) hpass hkind rfl ?_
            (Binding.harmless_ofCell .text _ _)
          simp [Binding.ofCell, Binding.ofVariable, Binding.withDescription, Param.optional]

/-- A call of `unalias` or `unset`. -/
theorem admits_remover {kind : BindingKind} (hs : s.Obeys Policy.guarded)
    (hkind : b.profile.kind ≠ kind) (h : (guarding key b).rel s tr none s) (args : Args) :
    (guarding key b).Admits s
      (do Builtin.removeKind (← args.text 0) kind : Script σ (Option Value)).toAction tr s := by
  cases hname : args.text 0 with
  | error e => exact (admits_lift_error rfl).mpr h
  | ok name => exact (admits_lift_ok rfl).mpr (admits_removeKind hkind hs h)

/-- Only `alias` and `var` define names, and only the removers unbind them; all of them look at the kind
    first. -/
theorem admits_guarding (hb : b.IsCommand) (hs : s.Obeys Policy.guarded)
    (hfit : Policy.guarded.binding c.binding) (hframe : s.stack.current = .ok c.frame) :
    (guarding key b).Admits s (c.binding.run c.args) [⟨s, some (.call c)⟩] s := by
  -- What is not `alias` or `var` defines nothing, and of the rest only two commands remove names.
  by_cases halias : c.binding = Builtin.aliasCommand.toBinding
  · exact admits_alias hs hb.ne_alias halias hframe
  by_cases hvar : c.binding = Builtin.var.toBinding
  · exact admits_var hs hb.ne_variable hvar
  have hrel : (guarding key b).rel s [⟨s, some (.call c)⟩] none s :=
    rel_call (by simp [Call.Defines, halias, hvar])
  rcases hfit with ⟨command, hcommand, hbinding⟩ | hharmless
  · rcases Builtin.mem_all.mp hcommand with hplain | hnamer
    · rw [hbinding]
      have hargs : c.args.Safe (fun _ => True) command.params := .inl fun _ _ => trivial
      exact admits_nameless (Builtin.tame Action.tame_nameless hplain hargs) hs hrel
    · simp only [Builtin.namers, List.mem_cons, List.not_mem_nil, or_false] at hnamer
      rcases hnamer with rfl | rfl | rfl | rfl
      · exact absurd hbinding halias
      · rw [hbinding]
        exact admits_remover hs hb.ne_alias hrel c.args
      · exact absurd hbinding hvar
      · rw [hbinding]
        exact admits_remover hs hb.ne_variable hrel c.args
  · exact admits_nameless (hharmless.nameless _) hs hrel

end Calls

theorem Contract.lawful_guarding (hb : b.IsCommand) : (guarding key b).Lawful where
  inv_congr := Shell.Obeys.congr
  fit_of_lookup := Policy.fit_of_lookup
  nil _ := by
    refine (and_iff_left ?_).symm
    rintro m ⟨⟩
  trans := guarding_trans
  fail _ h := h
  report := by
    intro s t tr e _ h
    refine guarding_snoc h ?_
    unfold Shell.report
    split <;> exact .rfl
  enclose := by
    intro s t tr e? depth depth' stack stack' h
    have hbegin : (guarding key b).rel s [⟨s.atLevel depth stack, none⟩] none (s.atLevel depth stack) :=
      (and_iff_left (by simpa using not_displaces_none _)).symm
    exact guarding_trans hbegin (guarding_snoc h .rfl)
  answer _ := (and_iff_left (by simpa using not_displaces_none _)).symm
  expire := by
    intro s name b' hs hlookup hdead
    rw [alive_of_guarded (hs.bindings hlookup)] at hdead
    cases hdead
  take := by
    intro s t tr expression _ h
    have hnote : (guarding key b).rel t [⟨t, some (.take expression s)⟩] none t := by
      refine (and_iff_left ?_).symm
      rw [List.forall_mem_singleton]
      rintro ⟨c, name, hc, -⟩
      cases hc
    refine ⟨fun _ => guarding_trans h hnote, fun line _ => ?_⟩
    exact guarding_trans h (guarding_snoc hnote .rfl)
  conversions _ _ _ := by
    refine admitsParse_guarding (and_iff_left ?_).symm
    rintro m ⟨⟩
  calls hs hfit hframe _ := admits_guarding hb hs hfit hframe

end Guarding

/-! ## Lines of input -/

namespace Shell

/-- Where the other bindings are harmless, a command keeps its name through the evaluation of a line
    exactly if no alias or variable is defined on the way whose name is this name with white space around
    it. -/
theorem Reachable.keeps_command_iff {config : Config} {host : σ} {s : Shell σ}
    (h : Reachable Policy.guarded config host s) {key : String} {b : Binding σ}
    (hhas : s.Has key b) (hb : b.IsCommand) (text : String) :
    ((eval text).run s).2.Has key b ↔
      ∀ c u name, (.call c, u) ∈ (evalBlock text).notes (s.shown text) → c.Defines name →
        Registry.keyOf name = key → Text.trim name = name := by
  obtain ⟨hobeys, hbounded⟩ := h.obeys Policy.closed_guarded
  have hself := (evalBlock text).runs_self (s.shown text)
  have hC : (guarding key b).Lawful := lawful_guarding hb
  have hrel := (hC.evalBlock text ((s.sameLevel_shown text).bounded hbounded) (hobeys.shown text)
    hself).rel
  have hshown : (s.shown text).Has key b := by
    unfold shown
    split <;> exact hhas
  rw [run_eval]
  refine hrel.trans ?_
  constructor
  · rintro ⟨-, hnone⟩ c u name hc hdefines hkey
    by_cases htrim : Text.trim name = name
    · exact htrim
    · exact absurd ⟨c, name, rfl, hdefines, hkey, htrim⟩ (hnone _ (Eval.mem_notes.mp hc))
  · intro hall
    refine ⟨hshown, ?_⟩
    rintro ⟨u, n?⟩ hm ⟨c, name, rfl, hdefines, hkey, htrim⟩
    exact htrim (hall c u name (Eval.mem_notes.mpr hm) hdefines hkey)

/-- One line of input puts an alias in the place of a command. -/
theorem eval_replaces_print :
    ((start {} ()).profile? "print").map (·.kind) = some .command ∧
      ((((eval "alias \" print\" echo").run (start {} ())).2.profile? "print").map (·.kind) =
        some .alias) := by
  decide +kernel

/-- A block that defines an alias for a text with a call of the command, and then one in its place. -/
def nestedAlias : String :=
  "exec \x7balias hi \"echo (print 1)\"; hi; if 1 \x7balias print echo\x7d\x7d"

/-- It does so by a definition whose name has white space around it. Where the name is written as it is,
    deep inside a line, the definition is refused and the command stays. -/
theorem keeps_command_iff_print :
    (¬ ∀ c u name, (.call c, u) ∈ (evalBlock "alias \" print\" echo").notes
        ((start {} ()).shown "alias \" print\" echo") →
      c.Defines name → Registry.keyOf name = "print" → Text.trim name = name) ∧
    (∀ c u name, (.call c, u) ∈ (evalBlock nestedAlias).notes ((start {} ()).shown nestedAlias) →
      c.Defines name → Registry.keyOf name = "print" → Text.trim name = name) ∧
    ((((eval nestedAlias).run (start {} ())).2.profile? "print").map (·.kind) = some .command) := by
  have hreachable := reachable_start (Policy.closed_guarded : Policy.guarded.Closed) {} ()
  have hbefore : ((start {} ()).registry.bindings["print"]?.map (·.profile.kind)) = some .command := by
    decide +kernel
  obtain ⟨b, hb, hkind⟩ := Option.map_eq_some_iff.mp hbefore
  refine ⟨?_, ?_⟩
  · have hafter : (((eval "alias \" print\" echo").run (start {} ())).2.registry.bindings["print"]?.map
        (·.profile.kind)) = some .alias := by
      decide +kernel
    intro hall
    have hkept := (hreachable.keeps_command_iff hb (.inl hkind) _).mpr hall
    rw [Has] at hkept
    rw [hkept, Option.map_some, hkind] at hafter
    cases hafter
  · have hnames : ((evalBlock nestedAlias).notes ((start {} ()).shown nestedAlias)).all (fun
        | (.call c, _) => c.names.all fun name =>
            Registry.keyOf name = "print" → Text.trim name = name
        | (.take _ _, _) => true) = true := by
      decide +kernel
    have hall : ∀ c u name, (.call c, u) ∈ (evalBlock nestedAlias).notes
          ((start {} ()).shown nestedAlias) →
        c.Defines name → Registry.keyOf name = "print" → Text.trim name = name := by
      intro c u name hc hdefines
      have hcall := List.all_eq_true.mp hnames _ hc
      exact of_decide_eq_true (List.all_eq_true.mp hcall name hdefines.mem_names)
    have hkept : ((eval nestedAlias).run (start {} ())).2.Has "print" b :=
      (hreachable.keeps_command_iff hb (.inl hkind) nestedAlias).mpr hall
    refine ⟨hall, ?_⟩
    rw [profile?, Registry.lookup?, show Text.lower "print" = "print" by decide +kernel, hkept,
      Option.map_some, Option.map_some, hkind]

end Shell
end CommandShell
