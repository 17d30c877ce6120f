import CommandShell.Proofs.Evaluation.Run
import CommandShell.Shell.Host
import Mathlib.Data.List.Defs

/-!
# `CommandShell.Proofs.Evaluation.Contract` — what every evaluation keeps

The evaluator, the conversions and the commands call each other without end, so a fact about evaluations
is an induction over all of them. This module does that induction once. A `Contract` says which bindings
may be called, what holds at every moment, and how the start of a run, its moments, its failure and its
end are related. A contract is lawful when the few steps of the evaluator itself respect it and when
every command that it allows respects it, granted that nested evaluations do. Then every evaluation
meets the contract, however deeply its parts are nested.

Two facts need no contract and come with every one of them: an evaluation ends at the level it began at
(`Shell.SameLevel`), and at every moment the levels are within their bounds (`Shell.Bounded`).

## Contents
- `Shell.SameLevel`, `Shell.Bounded` and `Moment.Framed`.
- `Shell.SameSetup`, with the operations of a shell that leave its bindings and conversions alone.
- `Contract`, with `Contract.Holds` of one run and `Contract.Meets` of an evaluation.
- `Contract.Admits` and `Contract.AdmitsParse`, a command and a conversion that respect a contract.
- `Contract.Fetched`, what is known of the arguments of a call.
- `Contract.Lawful`.
-/

namespace CommandShell

variable {σ α β : Type}

/-! ## Levels -/

/-- The two states are at the same level: the same evaluations and calls are in progress. -/
structure Shell.SameLevel (s t : Shell σ) : Prop where
  depth : t.depth = s.depth
  stack : t.stack = s.stack
  config : t.config = s.config

/-- No more calls are in flight than evaluations, and no more evaluations than the limit allows. -/
structure Shell.Bounded (s : Shell σ) : Prop where
  calls : s.stack.depth ≤ s.depth
  levels : s.depth ≤ s.config.maxDepth

/-- The state with another depth of evaluation and other calls in flight. -/
def Shell.atLevel (s : Shell σ) (depth : Nat) (stack : CallStack) : Shell σ :=
  { s with depth, stack }

/-- A call is noted while its own frame is the innermost one. -/
def Moment.Framed (m : Moment σ) : Prop :=
  ∀ c, m.note? = some (.call c) → m.shell.stack.current = .ok c.frame

/-- The two states have the same configuration, bindings and conversions, and channels of the same
    capacity. -/
structure Shell.SameSetup (s t : Shell σ) : Prop where
  config : t.config = s.config
  registry : t.registry = s.registry
  types : t.types = s.types
  capacity : t.output.capacity = s.output.capacity

theorem Shell.SameLevel.refl (s : Shell σ) : s.SameLevel s :=
  ⟨rfl, rfl, rfl⟩

theorem Shell.SameLevel.trans {s t u : Shell σ} (h : s.SameLevel t) (h' : t.SameLevel u) :
    s.SameLevel u :=
  ⟨h'.depth.trans h.depth, h'.stack.trans h.stack, h'.config.trans h.config⟩

/-- The bounds speak of the level and of nothing else. -/
theorem Shell.SameLevel.bounded {s t : Shell σ} (h : s.SameLevel t) (hs : s.Bounded) : t.Bounded := by
  refine ⟨?_, ?_⟩
  · rw [h.stack, h.depth]
    exact hs.calls
  · rw [h.depth, h.config]
    exact hs.levels

/-- A report is a line, so it changes neither depth nor frames. -/
theorem Shell.sameLevel_report (s : Shell σ) (e : ShellError) : s.SameLevel (s.report e) := by
  unfold Shell.report
  split
  · exact .refl s
  · exact ⟨rfl, rfl, rfl⟩

theorem Shell.sameLevel_popLast (s : Shell σ) : s.SameLevel s.popLast?.2 :=
  ⟨rfl, rfl, rfl⟩

/-- A new binding changes the registry alone. -/
theorem Shell.sameLevel_bind {s t : Shell σ} {name : String} {b : Binding σ}
    (h : s.bind name b = .ok t) : s.SameLevel t := by
  unfold Shell.bind at h
  split at h
  · cases h
    exact ⟨rfl, rfl, rfl⟩
  · cases h

/-- The level is no part of what has been set up. -/
theorem Shell.sameSetup_atLevel (s : Shell σ) (depth : Nat) (stack : CallStack) :
    s.SameSetup (s.atLevel depth stack) :=
  ⟨rfl, rfl, rfl, rfl⟩

/-- The memory is no part of it. -/
theorem Shell.sameSetup_update (s : Shell σ) (change : Memory σ → Memory σ) :
    s.SameSetup { s with memory := change s.memory } :=
  ⟨rfl, rfl, rfl, rfl⟩

/-- A line that is written leaves the capacity of the channel as it is. -/
theorem Shell.sameSetup_emit (s : Shell σ) (line : Line) :
    s.SameSetup { s with output := s.output.emit line } :=
  ⟨rfl, rfl, rfl, Channel.capacity_emit s.output line⟩

theorem Shell.sameSetup_popLast (s : Shell σ) : s.SameSetup s.popLast?.2 :=
  ⟨rfl, rfl, rfl, rfl⟩

theorem Shell.sameSetup_drain (s : Shell σ) : s.SameSetup s.drain.2 :=
  ⟨rfl, rfl, rfl, rfl⟩

/-- A report writes a line, or nothing when the failure has been reported. -/
theorem Shell.sameSetup_report (s : Shell σ) (e : ShellError) : s.SameSetup (s.report e) := by
  unfold Shell.report
  split
  · exact ⟨rfl, rfl, rfl, rfl⟩
  · exact s.sameSetup_emit _

/-- States in which a text may be evaluated, when this depends on the level alone. -/
structure Nestable (L : Shell σ → Prop) : Prop where
  bounded : ∀ {s}, L s → s.Bounded
  sameLevel : ∀ {s t}, L s → s.SameLevel t → L t

/-! ## Contracts -/

/-- The failure of an outcome. -/
def failureOf : Except ShellError α → Option ShellError
  | .ok _ => none
  | .error e => some e

@[simp] theorem failureOf_ok (a : α) : failureOf (.ok a : Except ShellError α) = none := rfl

@[simp] theorem failureOf_error (e : ShellError) :
    failureOf (.error e : Except ShellError α) = some e := rfl

/-- The failure to evaluate that made a conversion fail. -/
def resolutionOf : Except ParseFailure α → Option ShellError
  | .error (.resolution e) => some e
  | _ => none

/-- What evaluations are to keep. -/
structure Contract (σ : Type) where
  /-- The bindings that may be called. -/
  fit : Binding σ → Prop
  /-- What holds of the shell at every moment. -/
  inv : Shell σ → Prop
  /-- What is said of a run from one state through these moments, with this failure if any, to another
      state. -/
  rel : Shell σ → List (Moment σ) → Option ShellError → Shell σ → Prop

namespace Contract

variable {C : Contract σ} {L : Shell σ → Prop}

/-- A run has come from `s` through these moments to `t`, and the invariant holds throughout. -/
structure Reaches (C : Contract σ) (s : Shell σ) (tr : List (Moment σ)) (t : Shell σ) : Prop where
  level : s.SameLevel t
  inv : C.inv t
  moments : ∀ m ∈ tr, C.inv m.shell ∧ m.shell.Bounded ∧ m.Framed

/-- One run keeps the contract. -/
structure Holds (C : Contract σ) (s : Shell σ) (tr : List (Moment σ)) (e? : Option ShellError)
    (t : Shell σ) : Prop extends C.Reaches s tr t where
  rel : C.rel s tr e? t

/-- Every run of the evaluation from a state in `L` keeps the contract. -/
def Meets (C : Contract σ) (L : Shell σ → Prop) (x : Eval σ α) : Prop :=
  ∀ ⦃s tr r t⦄, L s → C.inv s → x.Runs s tr r t → C.Holds s tr (failureOf r) t

/-- The conversion, begun in `s` and now in the given state behind the given moments, goes on to keep
    the contract if the sub-evaluations that it asks for do. -/
def AdmitsParse (C : Contract σ) (s : Shell σ) : Parse α → List (Moment σ) → Shell σ → Prop
  | .done result, tr, t => C.rel s tr (resolutionOf result) t
  | .resolve _ next, tr, t => ∀ r tr' u, C.Holds t tr' (failureOf r) u →
      AdmitsParse C s (next r) (tr ++ tr') u

/-- The command, begun in `s` and now in the given state behind the given moments, goes on to keep the
    contract if the evaluations that it asks for do. -/
def Admits (C : Contract σ) (s : Shell σ) : Action σ → List (Moment σ) → Shell σ → Prop
  | .done r, tr, t => C.rel s tr (failureOf r) t
  | .inspect next, tr, t => Admits C s (next t.view) tr t
  | .update change next, tr, t =>
      let u := { t with memory := change t.memory }
      Admits C s next (tr ++ [⟨u, none⟩]) u
  | .emit line next, tr, t =>
      let u := { t with output := t.output.emit line }
      Admits C s next (tr ++ [⟨u, none⟩]) u
  | .popLast next, tr, t => Admits C s (next t.popLast?.1) (tr ++ [⟨t.popLast?.2, none⟩]) t.popLast?.2
  | .drain next, tr, t => Admits C s (next t.drain.1) (tr ++ [⟨t.drain.2, none⟩]) t.drain.2
  -- A nested evaluation may answer anything and leave any state that keeps the contract.
  | .evalBlock _ next, tr, t => ∀ r tr' u, C.Holds t tr' (failureOf r) u →
      Admits C s (next r) (tr ++ tr') u
  | .resolve _ next, tr, t => ∀ r tr' u, C.Holds t tr' (failureOf r) u →
      Admits C s (next r) (tr ++ tr') u
  | .fetch _ _ next, tr, t => ∀ r tr' u, C.Holds t tr' (failureOf r) u →
      Admits C s (next r) (tr ++ tr') u
  | .convert _ _ next, tr, t => ∀ r tr' u, C.Holds t tr' (resolutionOf r) u →
      Admits C s (next r) (tr ++ tr') u
  -- A name that is refused changes nothing.
  | .bind name profile body next, tr, t =>
      (∀ u, t.bind name ⟨profile, body⟩ = .ok u →
        C.inv u ∧ Admits C s (next (.ok ())) (tr ++ [⟨u, none⟩]) u) ∧
      ∀ e, t.bind name ⟨profile, body⟩ = .error e → Admits C s (next (.error e)) tr t
  | .unbind name next, tr, t =>
      let u := t.unbind name
      C.inv u ∧ Admits C s (next (t.profile? name)) (tr ++ [⟨u, none⟩]) u
  | .registerType type parser next, tr, t =>
      let u := t.registerType type parser
      C.inv u ∧ Admits C s next (tr ++ [⟨u, none⟩]) u

/-- The value was got for the parameter of a call, in a state with the invariant. -/
def Fetched (C : Contract σ) (param : Param) (v : Value) : Prop :=
  ∃ nested index s tr t, C.inv s ∧ (Eval.fetch nested index param).Runs s tr (.ok v) t

/-- The steps of the evaluator respect the contract, and so do the conversions in use and the commands
    it allows. -/
structure Lawful (C : Contract σ) : Prop where
  /-- Lines, levels and the memory are no part of what the invariant speaks of. -/
  inv_congr : ∀ {s t : Shell σ}, C.inv s → s.SameSetup t → C.inv t
  fit_of_lookup : ∀ {s : Shell σ} {name b}, C.inv s → s.registry.lookup? name = some b → C.fit b
  nil : ∀ {s}, C.inv s → C.rel s [] none s
  trans : ∀ {s t u tr tr' e?}, C.rel s tr none t → C.rel t tr' e? u → C.rel s (tr ++ tr') e? u
  fail : ∀ {s t tr e}, e ≠ .aborted → C.rel s tr none t → C.rel s tr (some e) t
  report : ∀ {s t tr e}, C.inv t → C.rel s tr (some e) t →
    C.rel s (tr ++ [⟨t.report e, none⟩]) (some .aborted) (t.report e)
  /-- An evaluation or a call in progress is no part of what the relation speaks of. -/
  enclose : ∀ {s t : Shell σ} {tr e?} {depth depth' : Nat} {stack stack' : CallStack},
    C.rel (s.atLevel depth stack) tr e? t →
    C.rel s (⟨s.atLevel depth stack, none⟩ :: (tr ++ [⟨t.atLevel depth' stack', none⟩])) e?
      (t.atLevel depth' stack')
  answer : ∀ {s : Shell σ} {text}, C.inv s →
    C.rel s [⟨s.emit .normal text, none⟩] none (s.emit .normal text)
  /-- A binding whose target is gone is removed. -/
  expire : ∀ {s : Shell σ} {name b}, C.inv s → s.registry.lookup? name = some b →
    b.profile.isAlive s.memory = false →
    C.inv (s.unbind name) ∧ C.rel s [⟨s.unbind name, none⟩] none (s.unbind name)
  /-- A sub-evaluation that has written takes the last line, if there is one. -/
  take : ∀ {s t : Shell σ} {tr} (expression), C.inv t → C.rel s tr none t →
    (t.popLast?.1 = none → C.rel s (tr ++ [⟨t, some (.take expression s)⟩]) none t) ∧
      ∀ line, t.popLast?.1 = some line →
        C.rel s (tr ++ [⟨t, some (.take expression s)⟩, ⟨t.popLast?.2, none⟩]) none t.popLast?.2
  conversions : ∀ {s : Shell σ} {type parser} (text), C.inv s →
    s.types.parserFor? type = some parser → C.AdmitsParse s (parser text) [] s
  calls : ∀ {s : Shell σ} {c : Call σ}, C.inv s → C.fit c.binding → s.stack.current = .ok c.frame →
    List.Forall₂ C.Fetched c.binding.profile.params c.args.values →
    C.Admits s (c.binding.run c.args) [⟨s, some (.call c)⟩] s

end Contract
end CommandShell
