import CommandShell.Builtin.All
import CommandShell.Proofs.TypedValues
import CommandShell.Shell.Host

/-!
# `CommandShell.Proofs.Commands` — what the built-in commands are made of

The built-in commands use few of the requests that a command may make, and they use them with care: they
write no errors, take no lines back, fail with failures of their own, and end with the failure of a block
as soon as one fails. Most of them bind nothing; the others bind aliases and variables in cells only.

A property of commands that every such step has, all built-in commands have. That is stated once here
(`Action.Tame` and `Action.Naming`), and each fact about all of them is an instance of it. How a command
may fail is left open up to two things: that a nested failure has been reported, and that an argument is of
the wrong kind. A property may rule out either; the second one only for arguments that fit. The state of
the host is none of their business: whatever a property says of it, the commands leave it so.

## Contents
- `Action.Tame` and `Action.Naming`, with `Args.Safe`.
- `Script.Yields`, with one lemma for each way to build a script.
- `Builtin.yields_argument`, the arguments of a command.
- `Builtin.plain` and `Builtin.namers`, with `Builtin.tame` and `Builtin.naming`.
- `Binding.tame_ofAlias` and `Binding.tame_ofCell`.
-/

namespace CommandShell

variable {σ α β : Type}

/-! ## Properties of commands -/

/-- The property has every end of a command with an allowed failure or without one, and goes through the
    requests that all built-in commands make. Their own failures are allowed. Where `I` holds of the
    state of the host, their changes leave it so. -/
structure Action.Tame (F : ShellError → Prop) (Q : Action σ → Prop) (I : σ → Prop := fun _ => True) :
    Prop where
  own : ∀ {e}, e ≠ .aborted → ¬ e.IsWrongArgument → F e
  answer : ∀ v?, Q (.done (.ok v?))
  failure : ∀ {e}, F e → Q (.done (.error e))
  inspect : ∀ {next}, (∀ s : Shell σ, Q (next s.view)) → Q (.inspect next)
  update : ∀ {change next}, (∀ m, I m.host → I (change m).host) → Q next → Q (.update change next)
  emit : ∀ {line next}, line.severity ≠ .error → Q next → Q (.emit line next)
  /-- The failure of a block ends the command. -/
  evalBlock : ∀ {text next}, next (.error .aborted) = .done (.error .aborted) →
    (∀ r, (∀ e, r = .error e → F e) → Q (next r)) → Q (.evalBlock text next)

/-- The property also goes through the requests of the commands that bind and remove names. -/
structure Action.Naming (F : ShellError → Prop) (Q : Action σ → Prop) (I : σ → Prop := fun _ => True) :
    Prop extends Action.Tame F Q I where
  bindAlias : ∀ {name target next}, (∀ r, (∀ e, r = .error e → F e) → Q (next r)) →
    Q (.bind name (Binding.ofAlias target).profile (Binding.ofAlias target).run next)
  bindCell : ∀ {name index text next}, (∀ r, (∀ e, r = .error e → F e) → Q (next r)) →
    Q (.bind name ((Binding.ofCell .text index).withDescription text).profile
      ((Binding.ofCell .text index).withDescription text).run next)
  unbind : ∀ {name next}, (∀ profile?, Q (next profile?)) → Q (.unbind name next)

/-- The failure of an accessor is allowed, or the arguments fit and there is none. -/
def Args.Safe (F : ShellError → Prop) (args : Args) (params : List Param) : Prop :=
  (∀ e, e.IsWrongArgument → F e) ∨ args.Fit params

/-- What is not the report of a nested failure may be any failure of an argument. -/
theorem Args.safe_ne_aborted (args : Args) (params : List Param) : args.Safe (· ≠ .aborted) params := by
  refine .inl ?_
  rintro e ⟨index, kind, rfl⟩
  simp

/-- An outcome whose failure is not the report of a nested one. -/
theorem ne_aborted_iff {r : Except ShellError α} :
    (∀ e, r = .error e → e ≠ .aborted) ↔ r ≠ .error .aborted := by
  constructor
  · intro h hr
    exact h _ hr rfl
  · rintro h e rfl rfl
    exact h rfl

/-! ### Messages -/

/-- The failure of an accessor begins as no other failure of a command does. -/
theorem ShellError.IsWrongArgument.take {text : String}
    (h : (ShellError.command text).IsWrongArgument) : text.toList.take 2 = ['a', 'r'] := by
  obtain ⟨index, kind, htext⟩ := h
  cases htext
  simp only [String.toList_append, List.append_assoc]
  rfl

/-- A message that begins otherwise is none of an accessor. -/
theorem ShellError.not_isWrongArgument_of_take {text : String} (h : text.toList.take 2 ≠ ['a', 'r']) :
    ¬ (ShellError.command text).IsWrongArgument :=
  fun hwrong => h hwrong.take

/-! ## Scripts -/

namespace Script

/-- What follows the script keeps the property when the script is put in front of it. -/
def Yields (Q : Action σ → Prop) (x : Script σ α) : Prop :=
  ∀ next, (∀ a, Q (next a)) → Q (x next)

variable {F : ShellError → Prop} {Q : Action σ → Prop} {I : σ → Prop}

theorem yields_pure (a : α) : Yields Q (pure a : Script σ α) :=
  fun _ hnext => hnext a

/-- Scripts put one behind the other yield what they yield each. -/
theorem yields_bind {x : Script σ α} {f : α → Script σ β} (hx : Yields Q x)
    (hf : ∀ a, Yields Q (f a)) : Yields Q (x >>= f) :=
  fun _ hnext => hx _ fun a => hf a _ hnext

theorem yields_map {x : Script σ α} {f : α → β} (hx : Yields Q x) : Yields Q (f <$> x) :=
  yields_bind hx fun _ => yields_pure _

/-- A script for every element of a list, by induction on the list. -/
theorem yields_forM {f : α → Script σ PUnit} (hf : ∀ a, Yields Q (f a)) (as : List α) :
    Yields Q (as.forM f) := by
  induction as with
  | nil => exact yields_pure _
  | cons a as ih => exact yields_bind (hf a) fun _ => ih

/-- A failure that a command makes up itself ends it, and nothing has to follow. -/
theorem yields_fail (hQ : Action.Tame F Q I) {e : ShellError} (he : e ≠ .aborted)
    (hargument : ¬ e.IsWrongArgument) : Yields Q (fail e : Script σ α) :=
  fun _ _ => hQ.failure (hQ.own he hargument)

/-- An outcome of a computation: the script goes on with its value, or ends with its failure. -/
theorem yields_lift (hQ : Action.Tame F Q I) {r : Except ShellError α} (hr : ∀ e, r = .error e → F e) :
    Yields Q (liftM r : Script σ α) := by
  intro next hnext
  cases r with
  | ok a => exact hnext a
  | error e => exact hQ.failure (hr e rfl)

/-- To look at the shell changes nothing; what is seen may decide what follows. -/
theorem yields_view (hQ : Action.Tame F Q I) {f : View σ → Script σ α}
    (hf : ∀ s : Shell σ, Yields Q (f s.view)) : Yields Q (view >>= f) :=
  fun _ hnext => hQ.inspect fun s => hf s _ hnext

/-- The frame is that of the call itself, and to have none would be a failure like others. -/
theorem yields_frame (hQ : Action.Tame F Q I) : Yields Q (frame : Script σ Frame) := by
  refine yields_view hQ fun s => yields_lift hQ fun e he => ?_
  have hnone : e = .noFrame := by
    simp only [Shell.view, CallStack.current] at he
    split at he <;> cases he
    rfl
  rw [hnone]
  exact hQ.own (by simp) (by simp [ShellError.IsWrongArgument])

/-- A name without a binding is a failure of the command. -/
theorem yields_lookup (hQ : Action.Tame F Q I) (name : String) : Yields Q (lookup name : Script σ _) := by
  refine yields_view hQ fun s => ?_
  split
  · exact yields_pure _
  · exact yields_fail hQ (by simp) (by simp [ShellError.IsWrongArgument])

theorem yields_update (hQ : Action.Tame F Q I) {change : Memory σ → Memory σ}
    (hchange : ∀ m, I m.host → I (change m).host) : Yields Q (update change) :=
  fun _ hnext => hQ.update hchange (hnext _)

theorem yields_emit (hQ : Action.Tame F Q I) {severity : Severity} (h : severity ≠ .error) (text : String) :
    Yields Q (emit severity text : Script σ Unit) :=
  fun _ hnext => hQ.emit h (hnext _)

/-- A block whose failure the command passes on. -/
theorem yields_evalBlock (hQ : Action.Tame F Q I) (text : String) :
    Yields Q (evalBlock text : Script σ Unit) := by
  intro next hnext
  apply hQ.evalBlock rfl
  intro r hr
  exact yields_lift hQ hr next hnext

/-- A new cell changes the memory and not the state of the host. -/
theorem yields_newCell (hQ : Action.Tame F Q I) (v : Value) : Yields Q (newCell v : Script σ Nat) :=
  yields_view hQ fun _ => yields_bind (yields_update hQ fun _ hm => hm) fun _ => yields_pure _

/-- The action of a script that ends the command. -/
theorem Yields.toAction (hQ : Action.Tame F Q I) {x : Script σ (Option Value)} (hx : Yields Q x) :
    Q x.toAction :=
  hx _ fun v? => hQ.answer v?

end Script

/-! ## Commands that bind nothing -/

namespace Builtin

open Script

variable {F : ShellError → Prop} {Q : Action σ → Prop} {I : σ → Prop} {args : Args}
  {params : List Param} {index : Nat} {param : Param}

/-- The built-in commands that bind and remove no names. -/
def plain : List (Command σ) :=
  [print, echo, warn, help, which, ifCommand, repeatCommand, exec, eq, not]

/-- The built-in commands that do. -/
def namers : List (Command σ) :=
  [aliasCommand, unalias, var, unset]

/-- The two lists together are all commands of the configuration. -/
theorem mem_all {c : Command σ} : c ∈ all ↔ c ∈ plain ∨ c ∈ namers := by
  simp only [all, plain, namers, List.mem_cons, List.not_mem_nil, or_false]
  grind

section Bodies

variable (hQ : Action.Tame F Q I)
include hQ

/-- An argument of the kind that its parameter has. -/
theorem yields_argument (hargs : args.Safe F params) (hparam : params[index]? = some param)
    (hfilled : param.IsFilled) {kind : String} {f : Value → Option α}
    (hf : ∀ v, param.type.Contains v → v.isNull = false ∧ ∃ a, f v = some a) :
    Yields Q (liftM (args.view index kind f) : Script σ α) := by
  refine yields_lift hQ fun e he => ?_
  rcases hargs with hallowed | hfit
  · exact hallowed e (Args.isWrongArgument_of_view he)
  · obtain ⟨a, ha⟩ := hfit.view hparam hfilled hf
    rw [ha] at he
    cases he

/-- An argument for a parameter of texts. -/
theorem yields_text (hargs : args.Safe F params) (hparam : params[index]? = some param)
    (htype : param.type = .text) (hfilled : param.IsFilled) :
    Yields Q (liftM (args.text index) : Script σ String) := by
  refine yields_argument hQ hargs hparam hfilled fun v hv => ?_
  rw [htype] at hv
  cases hv with
  | text s => exact ⟨rfl, s, rfl⟩

theorem yields_bool (hargs : args.Safe F params) (hparam : params[index]? = some param)
    (htype : param.type = .bool) (hfilled : param.IsFilled) :
    Yields Q (liftM (args.bool index) : Script σ Bool) := by
  refine yields_argument hQ hargs hparam hfilled fun v hv => ?_
  rw [htype] at hv
  cases hv with
  | bool b => exact ⟨rfl, b, rfl⟩

theorem yields_int (hargs : args.Safe F params) (hparam : params[index]? = some param)
    (htype : param.type = .int) (hfilled : param.IsFilled) :
    Yields Q (liftM (args.int index) : Script σ Int64) := by
  refine yields_argument hQ hargs hparam hfilled fun v hv => ?_
  rw [htype] at hv
  cases hv with
  | int n => exact ⟨rfl, n, rfl⟩

/-- Listings are normal lines. -/
theorem yields_emitAll (lines : List String) :
    Yields Q (lines.forM (emit .normal) : Script σ Unit) :=
  yields_forM (fun text => yields_emit hQ (by simp) text) lines

theorem yields_help (args : Args) : Yields Q (help.body args : Script σ _) := by
  simp only [help]
  split
  · exact yields_bind (yields_lookup hQ _) fun _ =>
      yields_bind (yields_emitAll hQ _) fun _ => yields_pure _
  · exact yields_view hQ fun _ => yields_bind (yields_emitAll hQ _) fun _ => yields_pure _

/-- The branch that is not given is not evaluated. -/
theorem yields_evalGiven (text? : Option String) : Yields Q (evalGiven text? : Script σ Unit) := by
  cases text? with
  | some text => exact yields_evalBlock hQ text
  | none => exact yields_pure _

theorem yields_if (hargs : args.Safe F (ifCommand : Command σ).params) :
    Yields Q (ifCommand.body args : Script σ _) := by
  have hrun (text? : Option String) :
      Yields Q (do evalGiven text?; return none : Script σ (Option Value)) :=
    yields_bind (yields_evalGiven hQ text?) fun _ => yields_pure _
  refine yields_bind (yields_bool hQ hargs rfl rfl (isFilled_required _ _)) fun condition => ?_
  cases condition with
  | true => exact yields_bind (yields_map (yields_text hQ hargs rfl rfl (isFilled_required _ _))) hrun
  | false => exact hrun _

/-- The induction is on the number of rounds; the first one that fails ends the command. -/
theorem yields_repeatBlock (text : String) (count : Nat) :
    Yields Q (repeatBlock text count : Script σ Unit) := by
  induction count with
  | zero => exact yields_pure _
  | succ count ih => exact yields_bind (yields_evalBlock hQ text) fun _ => ih

/-- A count beyond the limit is cut down with a warning, which is no error. -/
theorem yields_grantIterations (requested : Int64) :
    Yields Q (grantIterations requested : Script σ Nat) := by
  refine yields_view hQ fun s => ?_
  dsimp only
  split
  · exact yields_bind (yields_emit hQ (by simp) _) fun _ => yields_pure _
  · exact yields_pure _

theorem yields_repeat (hargs : args.Safe F (repeatCommand : Command σ).params) :
    Yields Q (repeatCommand.body args : Script σ _) := by
  refine yields_bind (yields_int hQ hargs rfl rfl (isFilled_required _ _)) fun requested => ?_
  refine yields_bind (yields_grantIterations hQ requested) fun count => ?_
  refine yields_bind (yields_text hQ hargs rfl rfl (isFilled_required _ _)) fun text => ?_
  exact yields_bind (yields_repeatBlock hQ text count) fun _ => yields_pure _

theorem yields_listAliases : Yields Q (listAliases : Script σ (Option Value)) :=
  yields_view hQ fun _ => yields_bind (yields_emitAll hQ _) fun _ => yields_pure _

/-- What is not an alias has no target, and `alias` says so. -/
theorem yields_aliasTarget (name : String) : Yields Q (aliasTarget name : Script σ String) := by
  refine yields_view hQ fun s => ?_
  split
  · exact yields_pure _
  · refine yields_fail hQ (by simp) (ShellError.not_isWrongArgument_of_take ?_)
    simp [String.toList_append]

/-- A property that goes through every tame step has each command that binds nothing. -/
theorem tame {c : Command σ} (hc : c ∈ plain) (hargs : args.Safe F c.params) :
    Q (c.toBinding.run args) := by
  apply Yields.toAction hQ
  simp only [plain, List.mem_cons, List.not_mem_nil, or_false] at hc
  rcases hc with rfl | rfl | rfl | rfl | rfl | rfl | rfl | rfl | rfl | rfl
  · exact yields_bind (yields_text hQ hargs rfl rfl (isFilled_required _ _)) fun _ => yields_pure _
  · exact yields_bind (yields_frame hQ) fun _ => yields_pure _
  · exact yields_bind (yields_text hQ hargs rfl rfl (isFilled_required _ _)) fun _ =>
      yields_bind (yields_emit hQ (by simp) _) fun _ => yields_pure _
  · exact yields_help hQ args
  · exact yields_bind (yields_text hQ hargs rfl rfl (isFilled_required _ _)) fun _ =>
      yields_bind (yields_lookup hQ _) fun _ => yields_pure _
  · exact yields_if hQ hargs
  · exact yields_repeat hQ hargs
  · exact yields_bind (yields_text hQ hargs rfl rfl (isFilled_required _ _)) fun _ =>
      yields_bind (yields_evalBlock hQ _) fun _ => yields_pure _
  · exact yields_bind (yields_text hQ hargs rfl rfl (isFilled_required _ _)) fun _ =>
      yields_bind (yields_text hQ hargs rfl rfl (isFilled_required _ _)) fun _ => yields_pure _
  · exact yields_bind (yields_bool hQ hargs rfl rfl (isFilled_required _ _)) fun _ => yields_pure _

end Bodies

/-! ## Commands that bind names -/

section Naming

variable (hQ : Action.Naming F Q I)
include hQ

/-- A binding that is refused ends the command, for a reason that is allowed. -/
theorem yields_bind_name {name : String} {b : Binding σ}
    (hb : ∀ {next}, (∀ r, (∀ e, r = .error e → F e) → Q (next r)) → Q (.bind name b.profile b.run next)) :
    Yields Q (Script.bind name b) := by
  intro next hnext
  apply hb
  intro r hr
  exact yields_lift hQ.toTame hr next hnext

/-- Whatever else has the name is refused in the words of the command. -/
theorem yields_requireKind {command : String}
    (hcommand : ∀ rest, (command ++ rest).toList.take 2 ≠ ['a', 'r'])
    (name : String) (kind : BindingKind) :
    Yields Q (requireKind command name kind : Script σ Unit) := by
  refine yields_view hQ.toTame fun s => ?_
  split
  · exact yields_pure _
  · split
    · refine yields_fail hQ.toTame (by simp) (ShellError.not_isWrongArgument_of_take ?_)
      rw [String.append_assoc, String.append_assoc, String.append_assoc]
      exact hcommand _
    · exact yields_pure _

/-- Only a binding of the kind is removed. -/
theorem yields_removeKind (name : String) (kind : BindingKind) :
    Yields Q (removeKind name kind : Script σ (Option Value)) := by
  refine yields_bind (yields_lookup hQ.toTame name) fun existing => ?_
  split
  · refine yields_fail hQ.toTame (by simp) (ShellError.not_isWrongArgument_of_take ?_)
    simp [String.toList_append]
  · exact fun _ hnext => hQ.unbind fun _ => hnext _

theorem yields_defineAlias (name target : String) :
    Yields Q (defineAlias name target : Script σ (Option Value)) := by
  refine yields_bind (yields_requireKind hQ ?_ name .alias) fun _ => ?_
  · intro rest
    simp [String.toList_append]
  · exact yields_bind (yields_bind_name hQ hQ.bindAlias) fun _ => yields_pure _

/-- No word lists the aliases, one shows its target, and more define it. -/
theorem yields_aliasWith (words : List String) :
    Yields Q (aliasWith words : Script σ (Option Value)) := by
  rcases words with _ | ⟨name, _ | ⟨word, _ | ⟨word', words⟩⟩⟩
  · exact yields_listAliases hQ.toTame
  · exact yields_bind (yields_aliasTarget hQ.toTame name) fun _ => yields_pure _
  · exact yields_defineAlias hQ _ _
  · exact yields_defineAlias hQ _ _

theorem yields_var (hargs : args.Safe F (var : Command σ).params) :
    Yields Q (var.body args : Script σ _) := by
  have hcontent : ((Param.optional "value" .text).withDefault (.text "")).IsFilled :=
    fun _ => ⟨.text "", rfl, .text ""⟩
  refine yields_bind (yields_text hQ.toTame hargs rfl rfl (isFilled_required _ _)) fun name => ?_
  refine yields_bind (yields_text hQ.toTame hargs rfl rfl hcontent) fun content => ?_
  refine yields_bind (yields_requireKind hQ ?_ name .variable) fun _ => ?_
  · intro rest
    simp [String.toList_append]
  · exact yields_bind (yields_newCell hQ.toTame _) fun _ =>
      yields_bind (yields_bind_name hQ hQ.bindCell) fun _ => yields_pure _

/-- A property that goes through every tame step and through naming has every built-in command. -/
theorem naming {c : Command σ} (hc : c ∈ all) (hargs : args.Safe F c.params) :
    Q (c.toBinding.run args) := by
  rcases mem_all.mp hc with hc | hc
  · exact tame hQ.toTame hc hargs
  apply Yields.toAction hQ.toTame
  simp only [namers, List.mem_cons, List.not_mem_nil, or_false] at hc
  rcases hc with rfl | rfl | rfl | rfl
  · exact yields_bind (yields_frame hQ.toTame) fun frame => yields_aliasWith hQ _
  · exact yields_bind (yields_text hQ.toTame hargs rfl rfl (isFilled_required _ _)) fun _ =>
      yields_removeKind hQ _ _
  · exact yields_var hQ hargs
  · exact yields_bind (yields_text hQ.toTame hargs rfl rfl (isFilled_required _ _)) fun _ =>
      yields_removeKind hQ _ _

end Naming

end Builtin

/-! ## Aliases and variables -/

namespace Binding

open Script

variable {F : ShellError → Prop} {Q : Action σ → Prop} {I : σ → Prop}

/-- An alias looks at its frame and evaluates its statement. -/
theorem tame_ofAlias (hQ : Action.Tame F Q I) (target : String) (args : Args) :
    Q ((ofAlias target : Binding σ).run args) :=
  Yields.toAction hQ <| yields_bind (yields_frame hQ) fun _ =>
    yields_bind (yields_evalBlock hQ _) fun _ => yields_pure _

/-- A variable whose accessor fails with failures that are allowed. -/
theorem tame_ofVariable (hQ : Action.Tame F Q) (type : ValueType) {access : Accessor σ}
    (hset : ∀ v m e, access.set v m = .error e → F e) (args : Args) :
    Q ((ofVariable type access).run args) := by
  refine Yields.toAction hQ (yields_view hQ fun s => ?_)
  split
  · exact yields_pure _
  · exact yields_bind (yields_lift hQ (hset _ _)) fun _ =>
      yields_bind (yields_update hQ fun _ _ => trivial) fun _ => yields_pure _

/-- A variable in a cell accepts every value. -/
theorem tame_ofCell (hQ : Action.Tame F Q) (type : ValueType) (index : Nat) (args : Args) :
    Q ((ofCell type index : Binding σ).run args) :=
  tame_ofVariable hQ type (by simp [Accessor.ofCell]) args

end Binding
end CommandShell
