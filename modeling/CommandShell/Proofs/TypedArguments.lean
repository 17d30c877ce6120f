import CommandShell.Proofs.Commands
import CommandShell.Proofs.Evaluation.Reachable
import Mathlib.Data.List.Forall2

/-!
# `CommandShell.Proofs.TypedArguments` — built-in commands get the arguments they ask for

A built-in command asks for its arguments by place and kind, and the failure of that request is the only
one that it has on account of an argument. Its parameters are of built-in types, so where no conversion of
the host stands in for a built-in one, the arguments of every call of it fit and the request succeeds.

A host may register conversions for types of its own, and bind any commands that do no more than that.

## Contents
- `Policy.hostTypes`, from `Action.RegistersHostTypes`.
- `Call.Typed`, with `Contract.typing` and its lawfulness.
- `Action.AcceptsArguments`, which every built-in command has where the arguments fit.
- `Shell.Reachable.arguments_typed`.
-/

namespace CommandShell

open Eval Contract

variable {σ : Type}

/-! ## Conversions of the host -/

/-- The command registers conversions for types of the host only, and so does every command that it
    binds. -/
def Action.RegistersHostTypes : Action σ → Prop
  | .done _ => True
  | .inspect next => ∀ s : Shell σ, (next s.view).RegistersHostTypes
  | .update _ next => next.RegistersHostTypes
  | .emit _ next => next.RegistersHostTypes
  | .popLast next => ∀ line?, (next line?).RegistersHostTypes
  | .drain next => ∀ lines, (next lines).RegistersHostTypes
  | .evalBlock _ next => ∀ r, (next r).RegistersHostTypes
  | .resolve _ next => ∀ r, (next r).RegistersHostTypes
  | .fetch _ _ next => ∀ r, (next r).RegistersHostTypes
  | .convert _ _ next => ∀ r, (next r).RegistersHostTypes
  | .bind _ _ body next => (∀ args, (body args).RegistersHostTypes) ∧ ∀ r, (next r).RegistersHostTypes
  | .unbind _ next => ∀ profile?, (next profile?).RegistersHostTypes
  | .registerType type _ next => type.mentionsCustom = true ∧ next.RegistersHostTypes

/-- Calling the binding registers conversions for types of the host only. -/
def Binding.RegistersHostTypes (b : Binding σ) : Prop :=
  ∀ args, (b.run args).RegistersHostTypes

/-- The policy that allows every conversion but those for built-in types. -/
def Policy.hostTypes : Policy σ where
  binding := Binding.RegistersHostTypes
  conversion type _ := type.mentionsCustom = true

/-- Most requests register no conversion. -/
theorem Action.tame_registersHostTypes :
    Action.Tame (fun _ => True) (Action.RegistersHostTypes : Action σ → Prop) where
  own _ _ := trivial
  answer _ := trivial
  failure _ := trivial
  inspect h := h
  update _ h := h
  emit _ h := h
  evalBlock _ h := fun r => h r fun _ _ => trivial

theorem Binding.registersHostTypes_ofAlias (target : String) :
    (ofAlias target : Binding σ).RegistersHostTypes :=
  tame_ofAlias Action.tame_registersHostTypes target

theorem Binding.registersHostTypes_ofCell (type : ValueType) (index : Nat) :
    (ofCell type index : Binding σ).RegistersHostTypes :=
  tame_ofCell Action.tame_registersHostTypes type index

/-- Aliases and variables in cells may be bound, too. -/
theorem Action.naming_registersHostTypes :
    Action.Naming (fun _ => True) (Action.RegistersHostTypes : Action σ → Prop) where
  toTame := tame_registersHostTypes
  bindAlias h := ⟨Binding.registersHostTypes_ofAlias _, fun r => h r fun _ _ => trivial⟩
  bindCell h := ⟨Binding.registersHostTypes_ofCell .text _, fun r => h r fun _ _ => trivial⟩
  unbind h := h

theorem Action.RegistersHostTypes.obeys {a : Action σ} (h : a.RegistersHostTypes) :
    a.Obeys Policy.hostTypes := by
  have hregisters : Action.Hereditary (Policy.hostTypes : Policy σ) Action.RegistersHostTypes := {
    bind := fun h => ⟨h.1, fun r _ => h.2 r⟩
    registerType := fun h => h }
  exact hregisters.obeys h

/-- What such a command may bind is such a command again. -/
theorem Policy.closed_hostTypes : (Policy.hostTypes : Policy σ).Closed where
  bodies hb args := (hb args).obeys
  builtins _ hc _ := Builtin.naming Action.naming_registersHostTypes hc (.inl fun _ _ => trivial)
  aliases := Binding.registersHostTypes_ofAlias

/-! ## Calls -/

/-- The arguments of the call are values that its parameters take, as far as these are of built-in
    types. -/
def Call.Typed (c : Call σ) : Prop :=
  List.Forall₂ (fun param v => param.type.mentionsCustom = false → param.Takes v)
    c.binding.profile.params c.args.values

/-- If a call is about to run, it is typed. -/
def Moment.Typed (m : Moment σ) : Prop :=
  ∀ c, m.note? = some (.call c) → c.Typed

/-- Every call of a run is typed. -/
def Contract.typing : Contract σ :=
  Policy.hostTypes.contract fun _ tr _ _ => ∀ m ∈ tr, m.Typed

section Typing

variable {s t : Shell σ} {tr tr' : List (Moment σ)}

theorem Moment.typed_none (u : Shell σ) : (⟨u, none⟩ : Moment σ).Typed := by
  rintro c ⟨⟩

/-- The moments of two parts are those of each. -/
theorem forall_typed_append (h : ∀ m ∈ tr, m.Typed) (h' : ∀ m ∈ tr', m.Typed) :
    ∀ m ∈ tr ++ tr', m.Typed :=
  List.forall_mem_append.mpr ⟨h, h'⟩

theorem forall_typed_single (u : Shell σ) : ∀ m ∈ [(⟨u, none⟩ : Moment σ)], m.Typed :=
  List.forall_mem_singleton.mpr (Moment.typed_none u)

/-- A command has no say in how its arguments are converted, so only the policy has to be kept. -/
theorem admits_typing {a : Action σ} (ha : a.Obeys Policy.hostTypes) (ht : t.Obeys Policy.hostTypes)
    (h : ∀ m ∈ tr, m.Typed) : Contract.typing.Admits s a tr t :=
  Policy.admits_contract (fun h => forall_typed_append h (forall_typed_single _)) forall_typed_append
    (fun h => h) ha ht h

/-- What was fetched for a parameter of a built-in type, the parameter takes. -/
theorem takes_of_fetched {param : Param} {v : Value} (h : (Contract.typing : Contract σ).Fetched param v)
    (hparam : param.type.mentionsCustom = false) : param.Takes v := by
  obtain ⟨nested, index, s, tr, t, hs, hrun⟩ := h
  exact takes_of_runs_fetch hs.conversions hparam hrun

/-- The moment that counts is the call; the values it is made with come from conversions of their types.
    -/
theorem Contract.lawful_typing : (Contract.typing : Contract σ).Lawful where
  inv_congr := Shell.Obeys.congr
  fit_of_lookup := Policy.fit_of_lookup
  nil _ := by simp [Contract.typing, Policy.contract]
  trans := forall_typed_append
  fail _ h := h
  report _ h := forall_typed_append h (forall_typed_single _)
  enclose h := forall_typed_append (forall_typed_single _) (forall_typed_append h (forall_typed_single _))
  answer _ := forall_typed_single _
  expire hs _ _ := ⟨hs.unbind _, forall_typed_single _⟩
  take := by
    intro s t tr expression _ h
    have hnote : (⟨t, some (.take expression s)⟩ : Moment σ).Typed := by
      rintro c ⟨⟩
    have hnoted := forall_typed_append h (List.forall_mem_singleton.mpr hnote)
    refine ⟨fun _ => hnoted, fun line _ => ?_⟩
    have hpopped := forall_typed_append hnoted (forall_typed_single t.popLast?.2)
    rwa [List.append_assoc] at hpopped
  conversions _ _ _ := Policy.admitsParse_contract forall_typed_append (fun h => h) _ (by simp)
  calls := by
    intro s c hs hfit _ hargs
    refine admits_typing (Policy.closed_hostTypes.bodies hfit _) hs (List.forall_mem_singleton.mpr ?_)
    rintro c' ⟨⟩
    exact hargs.imp fun _ _ => takes_of_fetched

end Typing

/-! ## Built-in commands -/

/-- No built-in command has a parameter of a custom type. -/
theorem Builtin.mentionsCustom_eq_false {command : Command σ} (hc : command ∈ all) {param : Param}
    (hparam : param ∈ command.params) : param.type.mentionsCustom = false := by
  have hall : (all : List (Command σ)).all
      (fun command => command.params.all fun param => !param.type.mentionsCustom) = true := rfl
  have hparams := List.all_eq_true.mp hall command hc
  simpa using List.all_eq_true.mp hparams param hparam

/-- The arguments of a typed call of a built-in command fit. -/
theorem Call.Typed.fit {c : Call σ} (h : c.Typed) {command : Command σ} (hc : command ∈ Builtin.all)
    (hbinding : c.binding = command.toBinding) : c.args.Fit command.params := by
  unfold Call.Typed at h
  rw [hbinding] at h
  have hboth := (List.forall₂_and_left _ _).mpr ⟨fun _ => Builtin.mentionsCustom_eq_false hc, h⟩
  exact hboth.imp fun param v ⟨hparam, htakes⟩ => htakes hparam

/-- However the command fails, no argument of it is of the wrong kind. -/
def Action.AcceptsArguments (a : Action σ) : Prop :=
  ∀ ⦃levels s tr e t⦄, (Eval.perform (evaluateWithin levels) a).Runs s tr (.error e) t →
    ¬ e.IsWrongArgument

namespace Action

variable {name : String} {next : Except ShellError Unit → Action σ}

theorem acceptsArguments_bind {b : Binding σ}
    (h : ∀ r, (∀ e, r = .error e → ¬ e.IsWrongArgument) → (next r).AcceptsArguments) :
    (Action.bind name b.profile b.run next).AcceptsArguments := by
  intro levels s tr e t hrun
  cases hb : s.bind name b with
  | ok u =>
      obtain ⟨tr', hrest, -⟩ := (runs_perform_bind_ok hb).mp hrun
      exact h _ (by simp) hrest
  | error e' =>
      refine h _ ?_ ((runs_perform_bind_error hb).mp hrun)
      intro e'' he''
      cases he''
      rcases Shell.error_of_bind hb with rfl | ⟨p, -, rfl⟩
      · exact ShellError.not_isWrongArgument_of_take (by simp [String.toList_append])
      · simp [ShellError.IsWrongArgument]

/-- A command built of such requests does not fail for the kind of an argument. -/
theorem naming_acceptsArguments :
    Action.Naming (fun e => ¬ e.IsWrongArgument) (Action.AcceptsArguments : Action σ → Prop) where
  own _ h := h
  answer v? := by
    intro levels s tr e t hrun
    cases (runs_lift.mp hrun).2.1
  failure he := by
    intro levels s tr e t hrun
    cases (runs_lift.mp hrun).2.1
    exact he
  inspect h := by
    intro levels s tr e t hrun
    exact h s (runs_get_bind.mp hrun)
  update _ h := by
    intro levels s tr e t hrun
    obtain ⟨tr', hrest, -⟩ := runs_modify_bind.mp hrun
    exact h hrest
  emit _ h := by
    intro levels s tr e t hrun
    obtain ⟨tr', hrest, -⟩ := runs_modify_bind.mp hrun
    exact h hrest
  evalBlock _ h := by
    intro levels s tr e t hrun
    obtain ⟨tr₁, outcome, u, tr₂, hblock, hrest, -⟩ := runs_attempt_bind.mp hrun
    refine h outcome ?_ hrest
    -- The failure of the block has been reported inside it, whatever it was.
    rintro e' rfl
    rw [aborted_of_runs_evaluateWithin hblock]
    simp [ShellError.IsWrongArgument]
  bindAlias h := acceptsArguments_bind h
  bindCell h := acceptsArguments_bind h
  unbind h := by
    intro levels s tr e t hrun
    obtain ⟨tr', hrest, -⟩ := runs_modify_bind.mp (runs_get_bind.mp hrun)
    exact h _ hrest

end Action

/-! ## Reachable states -/

namespace Shell

/-- With a table that has no other conversions for built-in types than the built-in ones, a conversion for
    a built-in type gives values of this type, whatever its resolver answers and whatever state that has.
    The table of a shell begins as such a table and stays one, if its host registers conversions for types
    of its own only. Whatever such a host goes on to do, evaluations of any text included, no call of a
    built-in command on the way fails because an argument is not of the kind that the command asks for. -/
theorem Reachable.arguments_typed {config : Config} {host : σ} {s : Shell σ}
    (h : Reachable Policy.hostTypes config host s) :
    (∀ table : Conversions, table.KeepsBuiltin → ∀ type : ValueType, type.mentionsCustom = false →
      ∀ (ρ : Type) (resolver : String → StateM ρ (Except ShellError String)) (start : ρ) text v,
        (((table.parse type text).run resolver).run start).1 = .ok v → type.Contains v) ∧
    (Conversions.standard.KeepsBuiltin ∧ s.types.KeepsBuiltin) ∧
    ∀ program : Action σ, program.Obeys Policy.hostTypes →
      ∀ c u, (.call c, u) ∈ (serve program).notes s →
        ∀ command ∈ Builtin.all, c.binding = command.toBinding →
          ∀ levels v (index : Nat) (kind : String),
            ((Eval.perform (evaluateWithin levels) (c.binding.run c.args)).exec v).1 ≠
              .error (.command ("argument " ++ toString index ++ " is not a " ++ kind ++ " value")) := by
  obtain ⟨hobeys, hbounded⟩ := h.obeys Policy.closed_hostTypes
  refine ⟨?_, ⟨Conversions.keepsBuiltin_standard, hobeys.conversions⟩, ?_⟩
  · intro table htable type htype ρ resolver start text v hv
    have hgives := Parse.gives_run resolver (table.parse type text) start
    rw [hv] at hgives
    exact Conversions.contains_of_parse htable htype hgives
  · intro program hprogram c u hc command hcommand hbinding levels v index kind hfail
    have hadmits : Contract.typing.Admits s program [] s := admits_typing hprogram hobeys (by simp)
    have hholds := lawful_typing.perform nestable_bounded lawful_typing.evalBlock [] hbounded
      (.refl hobeys) hadmits (runs_self (serve program) s)
    have htyped := hholds.rel _ (mem_notes.mp hc) c rfl
    have haccepts := Builtin.naming Action.naming_acceptsArguments hcommand
      (.inr (htyped.fit hcommand hbinding))
    rw [hbinding] at hfail
    have hrun := runs_self (Eval.perform (evaluateWithin levels) (command.toBinding.run c.args)) v
    rw [hfail] at hrun
    exact haccepts hrun ⟨index, kind, rfl⟩

/-- The shell that starts without a configuration file, given a condition and a block. -/
theorem arguments_typed_started :
    ((serve (Action.submitAll ["if 1 \x7bprint x\x7d"])).notes (start {} ())).length = 2 ∧
      ∀ c u, (.call c, u) ∈ (serve (Action.submitAll ["if 1 \x7bprint x\x7d"])).notes (start {} ()) →
        c.binding = Builtin.ifCommand.toBinding → ∀ v,
          ((Eval.perform (evaluateWithin 9) (c.binding.run c.args)).exec v).1 ≠
            .error (.command "argument 0 is not a bool value") := by
  refine ⟨by decide +kernel, ?_⟩
  intro c u hc hbinding v
  have hreachable := reachable_start (Policy.closed_hostTypes : Policy.hostTypes.Closed) {} ()
  obtain ⟨-, -, hcalls⟩ := hreachable.arguments_typed
  have hobeys : (Action.submitAll ["if 1 \x7bprint x\x7d"] : Action Unit).Obeys Policy.hostTypes :=
    Action.obeys_submitAll _ _
  exact hcalls _ hobeys c u hc Builtin.ifCommand (by simp [Builtin.all]) hbinding 9 v 0 "bool"

end Shell
end CommandShell
