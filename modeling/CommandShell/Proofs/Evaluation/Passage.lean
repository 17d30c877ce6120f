import CommandShell.Proofs.Evaluation.Contract

/-!
# `CommandShell.Proofs.Evaluation.Passage` — what runs of the evaluator are made of

Whatever the evaluator is asked, its runs are put together from few pieces: changes that stay at one
level, places where a result is taken, levels and frames that are entered and left again, and calls. The
pieces are those of any state whatever: also of one that no shell reaches, in which calls and levels are
out of step and no contract could be kept. So a fact about all runs is an induction over the pieces, and
one that holds for every shell.

## Contents
- `Call.Prepared`, what comes before a call runs.
- `Passage`, with `Passage.sameLevel` and `Passage.ends`.
- `Eval.Passes`, with one lemma for each way of putting evaluations together and one for each step of a
  statement.
- `Eval.passes_evaluateWithin`, the evaluator itself, and `Eval.KeepsLevel`: evaluations end at the level
  they began at.
-/

namespace CommandShell

open Eval

variable {σ α β : Type}

/-! ## Passages -/

/-- With its frame innermost, in `u`, the name of the call has been found and its arguments have been
    converted, which has led through these moments to `v`. -/
structure Call.Prepared (c : Call σ) (u : Shell σ) (conversion : List (Moment σ)) (v : Shell σ) :
    Prop where
  framed : u.stack.current = .ok c.frame
  prepares : ∃ levels, (prepare (evaluateWithin levels) c.frame.name).Runs u conversion
    (.ok (c.binding, c.args)) v

/-- A way from one state through moments to another, as a run of the evaluator takes it. -/
inductive Passage : Shell σ → List (Moment σ) → Shell σ → Prop
  | nil (s : Shell σ) : Passage s [] s
  | append {s t u : Shell σ} {tr tr' : List (Moment σ)} :
      Passage s tr t → Passage t tr' u → Passage s (tr ++ tr') u
  | change {s t : Shell σ} : s.SameLevel t → Passage s [⟨t, none⟩] t
  | take (s : Shell σ) (expression : String) (start : Shell σ) :
      Passage s [⟨s, some (.take expression start)⟩] s
  /-- Another depth or other frames, until what was there before is put back. -/
  | enclose {s t : Shell σ} {tr : List (Moment σ)} (depth : Nat) (stack : CallStack) :
      Passage (s.atLevel depth stack) tr t →
      Passage s (⟨s.atLevel depth stack, none⟩ :: (tr ++ [⟨t.atLevel s.depth s.stack, none⟩]))
        (t.atLevel s.depth s.stack)
  /-- A frame with a call that is prepared and then runs. -/
  | call {s u v w : Shell σ} {c : Call σ} {conversion body : List (Moment σ)} :
      u = s.atLevel s.depth (s.stack.push c.frame) → c.Prepared u conversion v →
      Passage u conversion v → Passage v body w →
      Passage s (⟨u, none⟩ ::
        (conversion ++ ⟨v, some (.call c)⟩ :: (body ++ [⟨w.atLevel s.depth s.stack, none⟩])))
        (w.atLevel s.depth s.stack)

/-- A passage ends at the level it began at. -/
theorem Passage.sameLevel {s t : Shell σ} {tr : List (Moment σ)} (h : Passage s tr t) : s.SameLevel t := by
  induction h with
  | nil s => exact .refl s
  | append _ _ ih ih' => exact ih.trans ih'
  | change hl => exact hl
  | take s => exact .refl s
  | enclose depth stack _ ih => exact ⟨rfl, rfl, ih.config⟩
  | call hu _ _ _ ih ih' =>
      subst hu
      exact ⟨rfl, rfl, ih'.config.trans ih.config⟩

/-- The state behind some moments, the given one if there are none. -/
def Shell.behind (s : Shell σ) (tr : List (Moment σ)) : Shell σ :=
  tr.foldl (fun _ m => m.shell) s

@[simp] theorem Shell.behind_nil (s : Shell σ) : s.behind [] = s := rfl

@[simp] theorem Shell.behind_cons (s : Shell σ) (m : Moment σ) (tr : List (Moment σ)) :
    s.behind (m :: tr) = m.shell.behind tr := rfl

/-- Behind two pieces one is behind the second, seen from behind the first. -/
@[simp] theorem Shell.behind_append (s : Shell σ) (tr tr' : List (Moment σ)) :
    s.behind (tr ++ tr') = (s.behind tr).behind tr' :=
  List.foldl_append

/-- A passage ends in the state of its last moment. -/
theorem Passage.ends {s t : Shell σ} {tr : List (Moment σ)} (h : Passage s tr t) : s.behind tr = t := by
  induction h with
  | append _ _ ih ih' => rw [Shell.behind_append, ih, ih']
  | nil | change | take | enclose | call => simp

namespace Eval

/-- The runs of the evaluation are passages. -/
def Passes (x : Eval σ α) : Prop :=
  ∀ ⦃s tr r t⦄, x.Runs s tr r t → Passage s tr t

/-! ## Putting evaluations together -/

/-- A result or a failure at hand goes through no moment. -/
theorem passes_pure (a : α) : (pure a : Eval σ α).Passes := by
  intro s tr r t h
  obtain ⟨rfl, -, rfl⟩ := runs_pure.mp h
  exact .nil t

theorem passes_throw (e : ShellError) : (throw e : Eval σ α).Passes := by
  intro s tr r t h
  obtain ⟨rfl, -, rfl⟩ := runs_throw.mp h
  exact .nil t

theorem passes_lift (outcome : Except ShellError α) : (liftM outcome : Eval σ α).Passes := by
  intro s tr r t h
  obtain ⟨rfl, -, rfl⟩ := runs_lift.mp h
  exact .nil t

/-- A failure that ends an evaluation is reported, which is a change at the same level. -/
theorem passes_abort (e : ShellError) : (abort e : Eval σ α).Passes := by
  intro s tr r t h
  obtain ⟨rfl, -, rfl⟩ := runs_abort.mp h
  exact .change (s.sameLevel_report e)

/-- A sequence passes through its first part and then through its second one, unless the first one
    fails. -/
theorem Passes.bind {x : Eval σ α} {f : α → Eval σ β} (hx : x.Passes) (hf : ∀ a, (f a).Passes) :
    (x >>= f).Passes := by
  intro s tr r t h
  rcases runs_bind.mp h with ⟨tr₁, a, u, tr₂, hrun, hrest, rfl⟩ | ⟨e, hrun, -⟩
  · exact (hx hrun).append (hf a hrest)
  · exact hx hrun

/-- A failure that is caught changes nothing of the way that has led to it. -/
theorem Passes.attempt {x : Eval σ α} (hx : x.Passes) : x.attempt.Passes := by
  intro s tr r t h
  obtain ⟨outcome, hrun, -⟩ := runs_attempt.mp h
  exact hx hrun

/-- To look at the state is no moment. -/
theorem passes_get_bind {f : Shell σ → Eval σ β} (hf : ∀ s, (f s).Passes) :
    (get >>= f : Eval σ β).Passes :=
  fun s _ _ _ h => hf s (runs_get_bind.mp h)

/-- A change that keeps the level. -/
theorem passes_modify_bind {g : Shell σ → Shell σ} {f : PUnit → Eval σ β}
    (hg : ∀ s : Shell σ, s.SameLevel (g s)) (hf : (f ⟨⟩).Passes) :
    (modify g >>= f : Eval σ β).Passes := by
  intro s tr r t h
  obtain ⟨tr', hrest, rfl⟩ := runs_modify_bind.mp h
  exact (Passage.change (hg s)).append (hf hrest)

/-- A state that is set at the level of the one before. -/
theorem Passes.of_set_bind {f : PUnit → Eval σ β} (hf : (f ⟨⟩).Passes) {s u t : Shell σ}
    {tr : List (Moment σ)} {r : Except ShellError β} (hu : s.SameLevel u)
    (h : (set u >>= f : Eval σ β).Runs s tr r t) : Passage s tr t := by
  obtain ⟨tr', hrest, rfl⟩ := runs_set_bind.mp h
  exact (Passage.change hu).append (hf hrest)

/-! ## The steps of a statement -/

section Nested

variable {nested : String → Eval σ Unit} (hnested : ∀ text, (nested text).Passes)
include hnested

/-- A sub-evaluation passes through the evaluation of its expression, and then it may take a line. -/
theorem passes_subEvaluate (expression : String) : (subEvaluate nested expression).Passes := by
  refine passes_get_bind fun start => (hnested expression).bind fun _ => ?_
  intro t tr r u h
  rw [runs_get_bind] at h
  by_cases hsame : t.output.emitted = start.output.emitted
  · rw [if_pos hsame] at h
    exact passes_throw _ h
  · rw [if_neg hsame] at h
    obtain ⟨tr₁, hrest, rfl⟩ := runs_note_bind.mp h
    refine (Passage.take t expression start).append ?_
    rcases hpop : t.popLast? with ⟨_ | line, v⟩
    · rw [hpop] at hrest
      exact passes_throw _ hrest
    · rw [hpop] at hrest
      have hv : t.SameLevel v := by
        have := t.sameLevel_popLast
        rwa [hpop] at this
      exact (passes_pure line.text).of_set_bind hv hrest

theorem passes_resolveToken (token : Token) : (resolveToken nested token).Passes := by
  unfold resolveToken
  split
  · exact (passes_subEvaluate hnested _).bind fun _ => passes_pure _
  · exact passes_pure _
  · exact passes_pure _

/-- The tokens of a statement, by induction on their list. -/
theorem passes_resolveTokens (tokens : List Token) :
    (tokens.mapM (resolveToken nested)).Passes := by
  induction tokens with
  | nil =>
      rw [List.mapM_nil]
      exact passes_pure _
  | cons token tokens ih =>
      rw [List.mapM_cons]
      exact (passes_resolveToken hnested token).bind fun _ => ih.bind fun _ => passes_pure _

/-- A conversion passes through what it asks for. The induction is on its requests. -/
theorem passes_convert (p : Parse Value) : (convert nested p).Passes := by
  unfold convert
  induction p with
  | done result => exact passes_pure _
  | resolve expression next ih =>
      exact (passes_subEvaluate hnested expression).attempt.bind fun answer => ih answer

theorem passes_fetch (index : Nat) (param : Param) : (fetch nested index param).Passes := by
  refine passes_get_bind fun s => (passes_lift _).bind fun frame => ?_
  split
  · exact passes_lift _
  · split
    · exact passes_throw _
    · refine (passes_convert hnested _).bind fun result => ?_
      split
      · exact passes_pure _
      · exact passes_throw _

/-- The arguments, by induction on the parameters that are left. -/
theorem passes_fetchFrom (index : Nat) (params : List Param) :
    (fetchFrom nested index params).Passes := by
  induction params generalizing index with
  | nil => exact passes_pure _
  | cons param params ih =>
      exact (passes_fetch hnested index param).bind fun _ =>
        (ih (index + 1)).bind fun _ => passes_pure _

/-- A command passes through its requests, one after the other, whatever it is. -/
theorem passes_perform (a : Action σ) : (perform nested a).Passes := by
  induction a with
  | done result => exact passes_lift result
  | inspect next ih => exact passes_get_bind fun s => ih s.view
  | update change next ih => exact passes_modify_bind (fun _ => ⟨rfl, rfl, rfl⟩) ih
  | emit line next ih => exact passes_modify_bind (fun _ => ⟨rfl, rfl, rfl⟩) ih
  | popLast next ih => exact fun s _ _ _ h => (ih _).of_set_bind s.sameLevel_popLast (runs_get_bind.mp h)
  | drain next ih =>
      intro s tr r t h
      have hdrain : s.SameLevel s.drain.2 := ⟨rfl, rfl, rfl⟩
      exact (ih _).of_set_bind hdrain (runs_get_bind.mp h)
  | evalBlock text next ih => exact (hnested text).attempt.bind ih
  | resolve expression next ih => exact (passes_subEvaluate hnested expression).attempt.bind ih
  | fetch index param next ih => exact (passes_fetch hnested index param).attempt.bind ih
  | convert type text next ih =>
      exact passes_get_bind fun s => (passes_convert hnested _).bind ih
  | bind name profile body next _ ih =>
      intro s tr r t h
      rw [perform, runs_get_bind] at h
      split at h
      · next u hu => exact (ih _).of_set_bind (Shell.sameLevel_bind hu) h
      · exact ih _ h
  | unbind name next ih =>
      exact passes_get_bind fun s => passes_modify_bind (fun _ => ⟨rfl, rfl, rfl⟩) (ih _)
  | registerType type parser next ih =>
      exact passes_modify_bind (fun _ => ⟨rfl, rfl, rfl⟩) ih

/-- To prepare a call is to convert its arguments, or to remove a binding without a target. -/
theorem passes_prepare (name : String) : (prepare nested name).Passes := by
  refine passes_get_bind fun s => ?_
  split
  · exact passes_throw _
  · split
    · exact (passes_fetchFrom hnested 0 _).bind fun _ => passes_pure _
    · exact passes_modify_bind (fun _ => ⟨rfl, rfl, rfl⟩) (passes_throw _)

/-- A call runs its binding and writes the answer, behind the note that says so. -/
theorem passage_of_runs_enter {c : Call σ} {v w : Shell σ} {tr : List (Moment σ)}
    {r : Except ShellError Unit} (h : (enter nested c).Runs v tr r w) :
    ∃ body, tr = ⟨v, some (.call c)⟩ :: body ∧ Passage v body w := by
  obtain ⟨body, hbody, rfl⟩ := runs_note_bind.mp h
  refine ⟨body, rfl, (passes_perform hnested _).bind (fun v? => ?_) hbody⟩
  cases v? with
  | none => exact passes_pure _
  | some answer =>
      intro s tr r t h
      obtain ⟨rfl, -, rfl⟩ := runs_modify.mp h
      exact .change ⟨rfl, rfl, rfl⟩

end Nested

/-! ## The evaluator -/

section Levels

variable {levels : Nat} (hlevels : ∀ text, (evaluateWithin levels text : Eval σ Unit).Passes)
include hlevels

/-- The frame that is popped is the one that was pushed, for what runs in between keeps the stack. -/
theorem passes_dispatch (frame : Frame) : (dispatch (evaluateWithin levels) frame : Eval σ Unit).Passes := by
  intro s tr r t h
  obtain ⟨tr₁, hrest, rfl⟩ := runs_modify_bind.mp h
  obtain ⟨tr₂, outcome, w, tr₃, hcall, hend, rfl⟩ := runs_attempt_bind.mp hrest
  obtain ⟨tr₄, hlift, rfl⟩ := runs_modify_bind.mp hend
  obtain ⟨rfl, -, rfl⟩ := runs_lift.mp hlift
  have hpop {w : Shell σ} (hw : (s.atLevel s.depth (s.stack.push frame)).SameLevel w) :
      ({ w with stack := w.stack.pop?.2 } : Shell σ) = w.atLevel s.depth s.stack := by
    have hdepth : w.depth = s.depth := hw.depth
    have hstack : w.stack = s.stack.push frame := hw.stack
    rw [Shell.atLevel, hstack, CallStack.pop?_push, ← hdepth]
  rcases runs_bind.mp hcall with ⟨tr₄, ⟨b, args⟩, v, tr₅, hprepare, henter, rfl⟩ | ⟨e, hprepare, -⟩
  · obtain ⟨body, rfl, hbody⟩ := passage_of_runs_enter hlevels henter
    have hconversion := passes_prepare hlevels frame.name hprepare
    rw [hpop (hconversion.sameLevel.trans hbody.sameLevel), List.append_assoc]
    exact .call (c := ⟨frame, b, args⟩) rfl ⟨rfl, levels, hprepare⟩ hconversion hbody
  · have hrefused := passes_prepare hlevels frame.name hprepare
    rw [hpop hrefused.sameLevel]
    exact .enclose s.depth (s.stack.push frame) hrefused

theorem passes_runStatement (tokens : List Token) :
    (runStatement (evaluateWithin levels) tokens : Eval σ Unit).Passes := by
  refine (passes_resolveTokens hlevels tokens).bind fun words => ?_
  split
  · exact passes_pure _
  · split
    · exact passes_pure _
    · exact passes_dispatch hlevels _

/-- The statements, by induction on their list. -/
theorem passes_runStatements (statements : List (List Token)) :
    (statements.forM (runStatement (evaluateWithin levels)) : Eval σ PUnit).Passes := by
  induction statements with
  | nil => exact passes_pure _
  | cons tokens statements ih => exact (passes_runStatement hlevels tokens).bind fun _ => ih

theorem passes_runProgram (p : Program) : (runProgram (evaluateWithin levels) p : Eval σ Unit).Passes := by
  refine (passes_runStatements hlevels p.statements).bind fun _ => ?_
  split
  · exact passes_throw _
  · exact passes_pure _

end Levels

/-- The runs of the evaluator are passages, also where no level is left. The depth is set back to what it
    was, whatever the statements have left it at. -/
theorem passes_evaluateWithin (levels : Nat) (text : String) :
    (evaluateWithin levels text : Eval σ Unit).Passes := by
  induction levels generalizing text with
  | zero => exact passes_get_bind fun s => passes_abort _
  | succ levels ih =>
      intro s tr r t h
      rw [evaluateWithin, runs_get_bind] at h
      obtain ⟨tr₁, hbody, rfl⟩ := runs_modify_bind.mp h
      obtain ⟨tr₂, outcome, u, tr₃, hrun, hrest, rfl⟩ := runs_attempt_bind.mp hbody
      obtain ⟨tr₄, hend, rfl⟩ := runs_modify_bind.mp hrest
      have hstatements := passes_runProgram ih (.ofChars text.toList) hrun
      have hstack : u.stack = s.stack := hstatements.sameLevel.stack
      have hleft : ({ u with depth := s.depth } : Shell σ) = u.atLevel s.depth s.stack := by
        rw [Shell.atLevel, ← hstack]
      rw [hleft] at hend ⊢
      have hlevel := Passage.enclose (s := s) (s.depth + 1) s.stack hstatements
      have hreported : Passage (u.atLevel s.depth s.stack) tr₄ t := by
        cases outcome with
        | ok _ => exact passes_pure _ hend
        | error e => exact passes_abort e hend
      have hall := hlevel.append hreported
      rw [List.cons_append, List.append_assoc] at hall
      exact hall

/-- A block is evaluated with the levels that the configuration leaves. -/
theorem passes_evalBlock (text : String) : (Shell.evalBlock text : Eval σ Unit).Passes :=
  passes_get_bind fun _ => passes_evaluateWithin _ text

/-! ## Levels -/

/-- The evaluation ends at the level it began at. -/
def KeepsLevel (x : Eval σ α) : Prop :=
  ∀ ⦃s tr r t⦄, x.Runs s tr r t → s.SameLevel t

theorem Passes.keepsLevel {x : Eval σ α} (hx : x.Passes) : x.KeepsLevel :=
  fun _ _ _ _ h => (hx h).sameLevel

theorem keepsLevel_runProgram (levels : Nat) (p : Program) :
    (runProgram (evaluateWithin levels) p : Eval σ Unit).KeepsLevel :=
  (passes_runProgram (passes_evaluateWithin levels) p).keepsLevel

theorem keepsLevel_evaluateWithin (levels : Nat) (text : String) :
    (evaluateWithin levels text : Eval σ Unit).KeepsLevel :=
  (passes_evaluateWithin levels text).keepsLevel

end Eval
end CommandShell
