import CommandShell.Proofs.Evaluation.Reachable

/-!
# `CommandShell.Proofs.Nesting` — levels and frames

Evaluations raise the depth and calls push frames, both by hand and on both sides of whatever runs in
between. Whatever that is, and however it ends, the level is as it was when it is over. So the frames
count the calls in flight, there are never more of them than levels, and never more levels than the
limit; and a command that looks at the innermost frame finds its own.

A host and its commands are not restricted here: `Policy.unrestricted` allows every binding and every
conversion.

## Contents
- `Policy.unrestricted`.
- `Eval.Nested`, an evaluation that leaves the level as it finds it, and `Contract.Holds.nested`.
- `Eval.Enters`, the place where a statement runs a binding.
- `Shell.Reachable.evaluations_nest`, the evaluations that hosts and commands can ask for.
-/

namespace CommandShell

open Eval Contract

variable {σ α : Type}

/-! ## Hosts without restriction -/

/-- The policy that allows everything. -/
def Policy.unrestricted : Policy σ where
  binding _ := True

theorem Action.obeys_unrestricted (a : Action σ) : a.Obeys Policy.unrestricted := by
  have hanything : Action.Hereditary (Policy.unrestricted : Policy σ) fun _ => True := by
    constructor <;> simp [Policy.unrestricted]
  exact hanything.obeys trivial

theorem Policy.closed_unrestricted : (Policy.unrestricted : Policy σ).Closed where
  bodies _ _ := Action.obeys_unrestricted _
  builtins _ _ := trivial
  aliases _ := trivial

/-! ## Nested evaluations -/

/-- The evaluation leaves depth and frames as it finds them in `s`, keeps the depth within the limit and
    the frames within the depth at every moment, and runs each binding under the frame it was
    dispatched with. -/
structure Eval.Nested (x : Eval σ α) (s : Shell σ) : Prop where
  depth : (x.exec s).2.depth = s.depth
  stack : (x.exec s).2.stack = s.stack
  bounded : ∀ u ∈ x.visits s, u.stack.depth ≤ u.depth ∧ u.depth ≤ u.config.maxDepth
  framed : ∀ c u, (.call c, u) ∈ x.notes s → u.stack.current = .ok c.frame

theorem Contract.Holds.nested {C : Contract σ} {x : Eval σ α} {s : Shell σ} {e? : Option ShellError}
    (hs : s.Bounded) (h : C.Holds s (x.trace s) e? (x.exec s).2) : x.Nested s where
  depth := h.level.depth
  stack := h.level.stack
  bounded := by
    intro u hu
    have hbounded : u.Bounded := by
      rcases mem_visits.mp hu with rfl | ⟨m, hm, rfl⟩ | rfl
      · exact hs
      · exact (h.moments m hm).2.1
      · exact h.level.bounded hs
    exact ⟨hbounded.calls, hbounded.levels⟩
  framed := by
    intro c u hc
    exact (h.moments _ (mem_notes.mp hc)).2.2 c rfl

/-! ## Statements -/

/-- The statement `tokens`, begun in `s`, runs the binding of the call `c` in the state `v`: its tokens
    have been resolved to the name and the arguments of the frame, and then, with the frame pushed, the
    parameters have been converted. -/
def Eval.Enters (s : Shell σ) (tokens : List Token) (c : Call σ) (v : Shell σ) : Prop :=
  ∃ name tr u tr', c.frame.name = name.text ∧ name.text.isEmpty = false ∧
    (tokens.mapM (resolveToken Shell.evalBlock)).Runs s tr (.ok (name :: c.frame.arguments)) u ∧
    (prepare Shell.evalBlock c.frame.name).Runs (u.atLevel u.depth (u.stack.push c.frame)) tr'
      (.ok (c.binding, c.args)) v

/-- Where a statement runs a binding, its run shows the call. -/
theorem Eval.Enters.noted {s v : Shell σ} {tokens : List Token} {c : Call σ}
    (h : Enters s tokens c v) : (.call c, v) ∈ (runStatement Shell.evalBlock tokens).notes s := by
  obtain ⟨name, tr, u, tr', hname, hne, htokens, hprepare⟩ := h
  rcases runs_bind.mp (runs_self (runStatement Shell.evalBlock tokens) s) with
    ⟨tr₁, words, u₁, tr₂, hresolve, hrest, htrace⟩ | ⟨e, hresolve, -⟩
  · -- A run is cut in one way only, so these are the words and the call that are given.
    obtain ⟨rfl, hwords, rfl⟩ := htokens.unique hresolve
    cases hwords
    rw [← hname] at hne
    simp only [← hname, hne] at hrest
    obtain ⟨tr₃, hpushed, rfl⟩ := runs_modify_bind.mp hrest
    obtain ⟨tr₄, outcome, w, tr₅, hcall, hend, rfl⟩ := runs_attempt_bind.mp hpushed
    rcases runs_bind.mp hcall with ⟨tr₆, call, v₁, tr₇, hprep, henter, rfl⟩ | ⟨e, hprep, -⟩
    · obtain ⟨rfl, hcallee, rfl⟩ := hprepare.unique hprep
      cases hcallee
      obtain ⟨tr₈, -, rfl⟩ := runs_note_bind.mp henter
      rw [mem_notes, htrace]
      simp
    · cases (hprepare.unique hprep).2.1
  · cases (htokens.unique hresolve).2.1

/-! ## What hosts and commands ask for -/

namespace Shell

/-- What a shell that holds calls within levels is asked to evaluate, it evaluates as a nested
    evaluation. -/
theorem Bounded.nested {s : Shell σ} (hs : s.Bounded) (hobeys : s.Obeys Policy.unrestricted)
    {x : Eval σ α} (hx : (Policy.unrestricted : Policy σ).keeping.Meets Bounded x) : x.Nested s :=
  (hx hs hobeys (runs_self x s)).nested hs

/-- In every reachable state, whatever a host or a command asks the shell to evaluate nests: a line of
    input, a block, an expression, a text to convert or an argument to fetch. Where a statement runs a
    binding, the innermost frame is that of its own name and arguments, and below it are the frames that
    were there when the statement began. -/
theorem Reachable.evaluations_nest {config : Config} {host : σ} {s : Shell σ}
    (h : Reachable Policy.unrestricted config host s) :
    (s.stack.depth ≤ s.depth ∧ s.depth ≤ s.config.maxDepth) ∧
      (∀ text, ((eval text).run s).2.depth = s.depth ∧ ((eval text).run s).2.stack = s.stack) ∧
      (∀ text, (evalBlock text).Nested s ∧ (evalBlock text).Nested (s.shown text)) ∧
      (∀ type text, (convert type text).Nested s) ∧
      (∀ index param, (fetch index param).Nested s) ∧
      (∀ expression, (resolve expression).Nested s) ∧
      ∀ tokens c v, s.stack.depth < s.depth → Enters s tokens c v →
        (.call c, v) ∈ (runStatement evalBlock tokens).notes s ∧ v.stack = s.stack.push c.frame := by
  have hP := (Policy.closed_unrestricted : (Policy.unrestricted : Policy σ).Closed)
  have hC := hP.lawful_keeping
  have hL := (Contract.nestable_bounded : Nestable (Bounded : Shell σ → Prop))
  obtain ⟨hobeys, hs⟩ := h.obeys hP
  have hshown (text : String) : (evalBlock text).Nested (s.shown text) :=
    ((s.sameLevel_shown text).bounded hs).nested (hobeys.shown text) (hC.evalBlock text)
  refine ⟨⟨hs.calls, hs.levels⟩, ?_, ?_, ?_, ?_, ?_, ?_⟩
  · intro text
    have hl := s.sameLevel_shown text
    rw [run_eval]
    exact ⟨(hshown text).depth.trans hl.depth, (hshown text).stack.trans hl.stack⟩
  · intro text
    exact ⟨hs.nested hobeys (hC.evalBlock text), hshown text⟩
  · intro type text
    have hconvert := (convert type text).runs_self s
    obtain ⟨result, hresult, hholds⟩ := hC.convert hL hC.evalBlock hs hobeys (runs_get_bind.mp hconvert)
    exact hholds.nested hs
  · intro index param
    exact hs.nested hobeys (hC.fetch hL hC.evalBlock index param)
  · intro expression
    exact hs.nested hobeys (hC.subEvaluate hL hC.evalBlock expression)
  · intro tokens c v hroom henters
    refine ⟨henters.noted, ?_⟩
    obtain ⟨name, tr, u, tr', -, -, htokens, hprepare⟩ := henters
    have hu := hC.resolveTokens hL hC.evalBlock tokens hs hobeys htokens
    -- The frame that is pushed has room, for the statement began with fewer calls than levels.
    have hpushed : (u.atLevel u.depth (u.stack.push c.frame)).Bounded := by
      obtain ⟨hdepth, hstack, hconfig⟩ := hu.level
      have hlevels := hs.levels
      refine ⟨?_, ?_⟩
      · simp only [atLevel, CallStack.depth_push, hstack, hdepth]
        omega
      · simp only [atLevel, hdepth, hconfig]
        omega
    have hinv := hu.inv.congr (u.sameSetup_atLevel u.depth (u.stack.push c.frame))
    have hv := (hC.prepare hL hC.evalBlock hpushed hinv hprepare).1
    rw [hv.level.stack]
    simp only [atLevel, hu.level.stack]

/-- The shell that starts without a configuration file, left at its level by a failure three levels
    deep. -/
theorem evaluations_nest_started :
    ((eval "repeat 2 \x7bprint (exec nope)\x7d").run (start {} ())).2.depth = (start {} ()).depth ∧
      ((eval "repeat 2 \x7bprint (exec nope)\x7d").run (start {} ())).2.stack =
        (start {} ()).stack :=
  (Reachable.evaluations_nest (reachable_start Policy.closed_unrestricted {} ())).2.1 _

end Shell
end CommandShell
