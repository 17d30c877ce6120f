import CommandShell.Proofs.Evaluation.Execution
import CommandShell.Proofs.Evaluation.Reachable

/-!
# `CommandShell.Proofs.Builtins` — a shell with its built-in commands

Nothing keeps a host from binding other commands under the names of the built-in ones, or from registering
other conversions for the basic types. What a text with built-in commands in it does can be said only
where that has not happened. A shell has its built-in commands from the start if its configuration asks
for them and gives their names to no alias.

## Contents
- `Shell.HasBuiltins`, and `Shell.hasBuiltins_configured`.
- `Shell.getElem?_bindAll`, names that are bound in order.
- `Shell.HasBuiltins.exec_print`, and `Shell.HasBuiltins.exec_print_subEval`, which hands a result on.
-/

namespace CommandShell

open Eval

variable {σ : Type}

/-- The built-in commands are bound under their names, and the built-in conversions are in force. -/
structure Shell.HasBuiltins (s : Shell σ) : Prop where
  commands : ∀ c ∈ Builtin.all, s.registry.lookup? c.name = some c.toBinding
  conversions : ∀ entry ∈ Conversions.standard.entries, s.types.registered? entry.1 = some entry.2

/-! ## The commands -/

namespace Builtin

theorem map_name_all : (all : List (Command σ)).map (·.name) =
    ["print", "echo", "warn", "help", "which", "alias", "unalias", "var", "unset", "if", "repeat", "exec",
      "eq", "not"] := rfl

/-- The names of the built-in commands are keys of a registry as they stand. -/
theorem keyOf_name {c : Command σ} (hc : c ∈ all) :
    Registry.keyOf c.name = c.name ∧ Text.lower c.name = c.name ∧ Registry.IsKey c.name := by
  have hall : ∀ name ∈ ["print", "echo", "warn", "help", "which", "alias", "unalias", "var", "unset", "if",
      "repeat", "exec", "eq", "not"],
      Registry.keyOf name = name ∧ Text.lower name = name ∧ Registry.IsKey name := by
    decide +kernel
  refine hall c.name ?_
  rw [← map_name_all (σ := σ)]
  exact List.mem_map_of_mem hc

/-- The parameters of the built-in commands have types with a built-in conversion. -/
theorem supports_params {c : Command σ} (hc : c ∈ all) :
    ∀ p ∈ c.params, Conversions.standard.supports p.type = true := by
  have hall : ((all : List (Command σ)).all fun c =>
      c.params.all fun p => Conversions.standard.supports p.type) = true := rfl
  simp only [List.all_eq_true] at hall
  exact hall c hc

end Builtin

/-! ## Names that are bound in order -/

namespace Shell

variable {s t : Shell σ} {refused : Shell σ → ShellError → Shell σ}

theorem registered_standard :
    ∀ entry ∈ Conversions.standard.entries,
      Conversions.standard.registered? entry.1 = some entry.2 := by
  intro entry hentry
  simp only [Conversions.standard, ValueType.vectorBounds?, List.filterMap_cons, List.filterMap_nil,
    Option.map_some, List.cons_append, List.nil_append, List.mem_cons, List.not_mem_nil, or_false] at hentry
  rcases hentry with rfl | rfl | rfl | rfl | rfl | rfl | rfl <;> rfl

/-- Of bindings that can all be kept and have different keys, each is found under its own. -/
theorem getElem?_bindAll {bindings : List (String × Binding σ)}
    (hrefused : ∀ s e, (refused s e).registry = s.registry)
    (haccepts : ∀ entry ∈ bindings, Registry.Accepts s.types entry.1 entry.2)
    (hkeys : (bindings.map (Registry.keyOf ·.1)).Nodup) :
    ∀ entry ∈ bindings,
      (s.bindAll refused bindings).registry.bindings[Registry.keyOf entry.1]? = some entry.2 := by
  induction bindings generalizing s with
  | nil => simp
  | cons first others ih =>
      rw [List.map_cons, List.nodup_cons] at hkeys
      rw [List.forall_mem_cons] at haccepts
      obtain ⟨hfirst, hothers⟩ := haccepts
      let t : Shell σ :=
        { s with registry := ⟨s.registry.bindings.insert (Registry.keyOf first.1) first.2⟩ }
      have hbind : s.bind first.1 first.2 = .ok t := bind_eq_ok_iff.mpr ⟨hfirst.1, hfirst.2, rfl⟩
      have hstep : s.bindAll refused (first :: others) = t.bindAll refused others := by
        rw [bindAll, List.foldl_cons, hbind]
        rfl
      rw [hstep, List.forall_mem_cons]
      refine ⟨?_, ih hothers hkeys.2⟩
      -- The bindings behind the first one have other keys, so they leave it alone.
      have hkept : ∀ u : Shell σ, u = t.bindAll refused others →
          u.registry.bindings[Registry.keyOf first.1]? = some first.2 := by
        rintro u rfl
        refine bindAll_induction (M := fun u =>
          u.registry.bindings[Registry.keyOf first.1]? = some first.2) ?_ ?_ ?_
        · intro u e hu
          rw [hrefused]
          exact hu
        · intro entry hentry u v hu hv
          have hne : Registry.keyOf entry.1 ≠ Registry.keyOf first.1 := fun heq =>
            hkeys.1 (heq ▸ List.mem_map_of_mem hentry)
          rw [bind_eq hv, Dictionary.getElem?_insert, if_neg hne]
          exact hu
        · exact Dictionary.getElem?_insert_self ..
      exact hkept _ rfl

/-! ## Shells with their built-in commands -/

namespace HasBuiltins

theorem congr (h : s.HasBuiltins) (hst : s.SameSetup t) : t.HasBuiltins where
  commands := by
    rw [hst.registry]
    exact h.commands
  conversions := by
    rw [hst.types]
    exact h.conversions

/-- A binding under another name leaves the built-in commands alone. -/
theorem bind {name : String} {b : Binding σ} (h : s.HasBuiltins)
    (hname : ∀ c ∈ (Builtin.all : List (Command σ)), Registry.keyOf name ≠ c.name)
    (ht : s.bind name b = .ok t) : t.HasBuiltins where
  commands := by
    intro c hc
    have hlower : Text.lower c.name = c.name := (Builtin.keyOf_name hc).2.1
    have hne : Registry.keyOf name ≠ Text.lower c.name := by
      rw [hlower]
      exact hname c hc
    rw [bind_eq ht, Registry.lookup?, Dictionary.getElem?_insert, if_neg hne]
    exact h.commands c hc
  conversions := by
    rw [bind_eq ht]
    exact h.conversions

end HasBuiltins

/-- A configuration that asks for the built-in commands and gives their names to no alias has them all. -/
theorem hasBuiltins_configured {config : Config} (hbuiltins : config.builtins = true)
    (haliases : ∀ entry ∈ config.aliases, ∀ c ∈ (Builtin.all : List (Command σ)),
      Registry.keyOf entry.1 ≠ c.name) (host : σ) : (configured config host).HasBuiltins := by
  let commands : List (String × Binding σ) := Builtin.all.map fun c => (c.name, c.toBinding)
  have haccepts : ∀ entry ∈ commands, Registry.Accepts (empty config host).types entry.1 entry.2 := by
    intro entry hentry
    obtain ⟨c, hc, rfl⟩ := List.mem_map.mp hentry
    obtain ⟨hkeyOf, -, hkey⟩ := Builtin.keyOf_name hc
    refine ⟨?_, Builtin.supports_params hc⟩
    rw [hkeyOf]
    exact hkey
  have hkeys : (commands.map (Registry.keyOf ·.1)).Nodup := by
    have hnames : commands.map (Registry.keyOf ·.1) = (Builtin.all : List (Command σ)).map (·.name) := by
      rw [List.map_map]
      exact List.map_congr_left fun c hc => (Builtin.keyOf_name hc).1
    rw [hnames, Builtin.map_name_all]
    decide
  have hbound : ∀ entry ∈ commands, ((empty config host).bindAll (fun s _ => s)
      commands).registry.bindings[Registry.keyOf entry.1]? = some entry.2 :=
    getElem?_bindAll (fun _ _ => rfl) haccepts hkeys
  have hcommands : ((empty config host).bindAll (fun s _ => s) commands).HasBuiltins := by
    refine ⟨fun c hc => ?_, ?_⟩
    · obtain ⟨hkeyOf, hlower, -⟩ := Builtin.keyOf_name hc
      rw [Registry.lookup?, hlower]
      simpa only [hkeyOf] using hbound (c.name, c.toBinding) (List.mem_map_of_mem hc)
    · refine bindAll_induction (M := fun s : Shell σ => ∀ entry ∈ Conversions.standard.entries,
        s.types.registered? entry.1 = some entry.2) (fun h => h) ?_ registered_standard
      intro _ _ s t hs ht
      rw [bind_eq ht]
      exact hs
  unfold configured
  rw [if_pos hbuiltins]
  refine bindAll_induction (fun h => h.congr (sameSetup_report _ _)) ?_ hcommands
  intro entry hentry s t hs ht
  obtain ⟨pair, hpair, rfl⟩ := List.mem_map.mp hentry
  exact hs.bind (haliases pair hpair) ht

theorem start_eq_configured {config : Config} (h : config.startup = []) (host : σ) :
    start config host = configured config host := by
  rw [start, h]
  rfl

/-! ## Calls of built-in commands -/

namespace HasBuiltins

variable {nested : String → Eval σ Unit}

theorem parserFor?_text (h : s.HasBuiltins) :
    s.types.parserFor? .text = some fun text => .done (parseText text) := by
  have htext : s.types.registered? .text = some fun text => .done (parseText text) :=
    h.conversions (.text, fun text => .done (parseText text)) List.mem_cons_self
  unfold Conversions.parserFor?
  rw [htext]

/-- A text is taken for a parameter as it is. -/
theorem exec_fetch_text (h : s.HasBuiltins) {frame : Frame} {index : Nat} {param : Param} {text : String}
    {origin : Origin} (hframe : s.stack.current = .ok frame)
    (hargument : frame.arguments[index]? = some ⟨text, origin⟩) (htype : param.type = .text) :
    (Eval.fetch nested index param).exec s = (.ok (.text text), s) := by
  have hparser : s.types.parserFor? param.type = some fun text => .done (parseText text) := by
    rw [htype]
    exact h.parserFor?_text
  exact exec_fetch_of_argument nested hframe hargument hparser rfl

/-- The command writes its first argument. -/
theorem exec_print (h : s.HasBuiltins) (argument : Argument) (others : List Argument) :
    (dispatch nested ⟨"print", argument :: others⟩).exec s = (.ok (), s.emit .normal argument.text) := by
  have hbound : s.registry.lookup? "print" = some Builtin.print.toBinding :=
    h.commands Builtin.print List.mem_cons_self
  let frame : Frame := ⟨"print", argument :: others⟩
  have hfetch : (Eval.fetch nested 0 (Builtin.textParam "text")).exec (called s frame) =
      (.ok (.text argument.text), called s frame) := by
    have hcalled : (called s frame).HasBuiltins := h.congr (sameSetup_atLevel _ _ _)
    exact hcalled.exec_fetch_text (CallStack.current_push _ _) rfl rfl
  exact exec_dispatch nested s (some (.text argument.text)) hbound rfl
    (exec_fetchFrom_cons nested hfetch rfl) rfl

/-- The command writes the result of an expression. Where that is a line which has been passed on, it is
    passed on once more. -/
theorem exec_print_subEval (h : s.HasBuiltins) {expression text : String} {times : Nat}
    (htimes : 0 < times)
    (hrun : (nested expression).exec s = (.ok (), s.passOn ⟨text, .normal⟩ times)) :
    (runStatement nested [⟨.literal, "print"⟩, ⟨.subEval, expression⟩]).exec s =
      (.ok (), s.passOn ⟨text, .normal⟩ (times + 1)) := by
  have hwritten : (s.passOn ⟨text, .normal⟩ times).output.emitted ≠ s.output.emitted := by
    show s.output.emitted + times ≠ s.output.emitted
    omega
  let t : Shell σ := (s.passOn ⟨text, .normal⟩ times).popLast?.2
  have hline : (s.passOn ⟨text, .normal⟩ times).popLast? = (some ⟨text, .normal⟩, t) :=
    Prod.ext (s.output.popLast?_passOn _ _) rfl
  have hagain : t.emit .normal text = s.passOn ⟨text, .normal⟩ (times + 1) := by
    have houtput := s.output.emit_popLast_passOn ⟨text, .normal⟩ times
    show ({ s with output := _ } : Shell σ) = _
    rw [passOn, ← houtput]
    rfl
  rw [runStatement_subEval nested (by decide), exec_bind, exec_subEvaluate nested hrun hwritten hline,
    ← hagain]
  have ht : t.HasBuiltins := h.congr ⟨rfl, rfl, rfl, rfl⟩
  exact ht.exec_print ⟨text, .subEval⟩ []

end HasBuiltins
end Shell
end CommandShell
