import CommandShell.Proofs.Evaluation.Arguments
import CommandShell.Proofs.Scanning

/-!
# `CommandShell.Proofs.Evaluation.Calls` — contracts while commands run

The second half of the induction: commands, calls, statements and programs meet a lawful contract when
the evaluator of the next level does. Induction on the levels that are left closes the circle, and every
evaluation meets the contract.

## Contents
- `Contract.Lawful.perform`, `.prepare`, `.enter` and `.dispatch`.
- `Contract.Lawful.runStatement` and `.runProgram`.
- `Contract.Lawful.evaluateWithin` and `.evalBlock`, the evaluator itself.
-/

namespace CommandShell
namespace Contract

open Eval

variable {σ α : Type} {C : Contract σ} {L : Shell σ → Prop} {nested : String → Eval σ Unit}

/-! ## Binding a name -/

section Bind

variable {t u v : Shell σ} {tr : List (Moment σ)} {name : String} {profile : Profile σ}
  {body : Args → Action σ} {next : Except ShellError Unit → Action σ}
  {r : Except ShellError (Option Value)} {e : ShellError}

theorem runs_perform_bind_ok (hb : t.bind name ⟨profile, body⟩ = .ok v) :
    (Eval.perform nested (.bind name profile body next)).Runs t tr r u ↔
      ∃ tr', (Eval.perform nested (next (.ok ()))).Runs v tr' r u ∧ tr = ⟨v, none⟩ :: tr' := by
  simp only [Eval.perform, runs_get_bind, hb, runs_set_bind]

theorem runs_perform_bind_error (hb : t.bind name ⟨profile, body⟩ = .error e) :
    (Eval.perform nested (.bind name profile body next)).Runs t tr r u ↔
      (Eval.perform nested (next (.error e))).Runs t tr r u := by
  simp only [Eval.perform, runs_get_bind, hb]

end Bind

section Nested

variable (hC : C.Lawful) (hL : Nestable L) (hnested : ∀ text, C.Meets L (nested text))
include hC hL hnested

/-! ## Commands -/

/-- A command that the contract admits keeps it. The induction is on the requests of the command; the
    contract is carried as what has been kept so far, for a failure need not end a command. -/
theorem Lawful.perform {a : Action σ} {s t u : Shell σ} (tr : List (Moment σ))
    {tr' : List (Moment σ)} {r : Except ShellError (Option Value)} (hs : L s)
    (hbefore : C.Reaches s tr t) (ha : C.Admits s a tr t) (h : (Eval.perform nested a).Runs t tr' r u) :
    C.Holds s (tr ++ tr') (failureOf r) u := by
  -- One change of the shell that leaves the level as it is, and what follows it.
  have hstep {a : Action σ} {t v u : Shell σ} {tr tr₁ : List (Moment σ)}
      (ih : ∀ {t u : Shell σ} (tr : List (Moment σ)) {tr' : List (Moment σ)}, C.Reaches s tr t →
        C.Admits s a tr t → (Eval.perform nested a).Runs t tr' r u →
        C.Holds s (tr ++ tr') (failureOf r) u)
      (hb : C.Reaches s tr t) (hl : t.SameLevel v) (hv : C.inv v)
      (ha : C.Admits s a (tr ++ [⟨v, none⟩]) v) (h : (Eval.perform nested a).Runs v tr₁ r u) :
      C.Holds s (tr ++ ⟨v, none⟩ :: tr₁) (failureOf r) u := by
    have := ih (tr ++ [⟨v, none⟩]) (hb.snoc (hL.bounded hs) hl hv (framed_of_none v)) ha h
    rwa [List.append_assoc] at this
  -- A nested evaluation, and what follows it.
  have hjoin {t v u : Shell σ} {tr tr₁ tr₂ : List (Moment σ)} {a : Action σ} {e? : Option ShellError}
      (ih : ∀ {t u : Shell σ} (tr : List (Moment σ)) {tr' : List (Moment σ)}, C.Reaches s tr t →
        C.Admits s a tr t → (Eval.perform nested a).Runs t tr' r u →
        C.Holds s (tr ++ tr') (failureOf r) u)
      (hb : C.Reaches s tr t) (hv : C.Holds t tr₁ e? v) (ha : C.Admits s a (tr ++ tr₁) v)
      (h : (Eval.perform nested a).Runs v tr₂ r u) :
      C.Holds s (tr ++ (tr₁ ++ tr₂)) (failureOf r) u := by
    have := ih (tr ++ tr₁) (hb.trans hv.toReaches) ha h
    rwa [List.append_assoc] at this
  induction a generalizing t u tr tr' with
  | done result =>
      obtain ⟨rfl, rfl, rfl⟩ := runs_lift.mp h
      rw [List.append_nil]
      exact ⟨hbefore, ha⟩
  | inspect next ih => exact ih _ tr hbefore ha (runs_get_bind.mp h)
  | update change next ih =>
      obtain ⟨tr₁, hrest, rfl⟩ := runs_modify_bind.mp h
      have hinv := hC.inv_congr hbefore.inv (t.sameSetup_update change)
      exact hstep ih hbefore ⟨rfl, rfl, rfl⟩ hinv ha hrest
  | emit line next ih =>
      obtain ⟨tr₁, hrest, rfl⟩ := runs_modify_bind.mp h
      have hinv := hC.inv_congr hbefore.inv (t.sameSetup_emit line)
      exact hstep ih hbefore ⟨rfl, rfl, rfl⟩ hinv ha hrest
  | popLast next ih =>
      obtain ⟨tr₁, hrest, rfl⟩ := runs_set_bind.mp (runs_get_bind.mp h)
      have hinv := hC.inv_congr hbefore.inv t.sameSetup_popLast
      exact hstep (ih _) hbefore t.sameLevel_popLast hinv ha hrest
  | drain next ih =>
      obtain ⟨tr₁, hrest, rfl⟩ := runs_set_bind.mp (runs_get_bind.mp h)
      have hinv := hC.inv_congr hbefore.inv t.sameSetup_drain
      exact hstep (ih _) hbefore ⟨rfl, rfl, rfl⟩ hinv ha hrest
  | evalBlock text next ih =>
      obtain ⟨tr₁, outcome, v, tr₂, hrun, hrest, rfl⟩ := runs_attempt_bind.mp h
      have hv := hnested text (hL.sameLevel hs hbefore.level) hbefore.inv hrun
      exact hjoin (ih outcome) hbefore hv (ha outcome tr₁ v hv) hrest
  | resolve expression next ih =>
      obtain ⟨tr₁, outcome, v, tr₂, hrun, hrest, rfl⟩ := runs_attempt_bind.mp h
      have hLt := hL.sameLevel hs hbefore.level
      have hv := hC.subEvaluate hL hnested expression hLt hbefore.inv hrun
      exact hjoin (ih outcome) hbefore hv (ha outcome tr₁ v hv) hrest
  | fetch index param next ih =>
      obtain ⟨tr₁, outcome, v, tr₂, hrun, hrest, rfl⟩ := runs_attempt_bind.mp h
      have hLt := hL.sameLevel hs hbefore.level
      have hv := hC.fetch hL hnested index param hLt hbefore.inv hrun
      exact hjoin (ih outcome) hbefore hv (ha outcome tr₁ v hv) hrest
  | convert type text next ih =>
      have hLt := hL.sameLevel hs hbefore.level
      rcases runs_bind.mp (runs_get_bind.mp h) with ⟨tr₁, a, v, tr₂, hrun, hrest, rfl⟩ | ⟨e, hrun, -⟩
      · obtain ⟨result, hres, hv⟩ := hC.convert hL hnested hLt hbefore.inv hrun
        cases hres
        exact hjoin (ih a) hbefore hv (ha a tr₁ v hv) hrest
      · obtain ⟨result, hres, -⟩ := hC.convert hL hnested hLt hbefore.inv hrun
        cases hres
  | bind name profile body next _ ih =>
      cases hb : t.bind name ⟨profile, body⟩ with
      | ok v =>
          obtain ⟨hinv, hnext⟩ := ha.1 v hb
          obtain ⟨tr₁, hrest, rfl⟩ := (runs_perform_bind_ok hb).mp h
          exact hstep (ih _) hbefore (Shell.sameLevel_bind hb) hinv hnext hrest
      | error e => exact ih _ tr hbefore (ha.2 e hb) ((runs_perform_bind_error hb).mp h)
  | unbind name next ih =>
      obtain ⟨tr₁, hrest, rfl⟩ := runs_modify_bind.mp (runs_get_bind.mp h)
      exact hstep (ih _) hbefore ⟨rfl, rfl, rfl⟩ ha.1 ha.2 hrest
  | registerType type parser next ih =>
      obtain ⟨tr₁, hrest, rfl⟩ := runs_modify_bind.mp h
      exact hstep ih hbefore ⟨rfl, rfl, rfl⟩ ha.1 ha.2 hrest

/-! ## Calls -/

/-- What `prepare` finds may be called, with the values of its parameters. -/
theorem Lawful.prepare {name : String} {s t : Shell σ} {tr : List (Moment σ)}
    {r : Except ShellError (Binding σ × Args)} (hs : L s) (hi : C.inv s)
    (h : (Eval.prepare nested name).Runs s tr r t) :
    C.Holds s tr (failureOf r) t ∧ ∀ b args, r = .ok (b, args) →
      C.fit b ∧ List.Forall₂ C.Fetched b.profile.params args.values := by
  rw [Eval.prepare, runs_get_bind] at h
  split at h
  · obtain ⟨rfl, rfl, rfl⟩ := runs_throw.mp h
    exact ⟨(Holds.refl hC hi).fail hC (by simp), by simp⟩
  · next b hb =>
    split at h
    · rcases runs_bind.mp h with ⟨tr₁, values, u, tr₂, hrun, hend, rfl⟩ | ⟨e, hrun, rfl⟩
      · obtain ⟨rfl, rfl, rfl⟩ := runs_pure.mp hend
        have hu := hC.fetchFrom hL hnested 0 b.profile.params hs hi hrun
        refine ⟨by simpa using hu, ?_⟩
        intro b' args hb'
        cases hb'
        exact ⟨hC.fit_of_lookup hi hb, hC.forall₂_fetched hL hnested hs hi hrun⟩
      · exact ⟨hC.fetchFrom hL hnested 0 b.profile.params hs hi hrun, by simp⟩
    · next hdead =>
      -- The target is gone: the name is removed before any argument is converted.
      obtain ⟨tr₁, hend, rfl⟩ := runs_modify_bind.mp h
      obtain ⟨rfl, rfl, rfl⟩ := runs_throw.mp hend
      obtain ⟨hinv, hrel⟩ := hC.expire hi hb (by simpa using hdead)
      have hreach : C.Reaches s [⟨s.unbind name, none⟩] (s.unbind name) :=
        (Reaches.refl hi).snoc (hL.bounded hs) ⟨rfl, rfl, rfl⟩ hinv (framed_of_none _)
      exact ⟨Holds.fail hC (by simp) ⟨hreach, hrel⟩, by simp⟩

theorem Lawful.enter {c : Call σ} {s t : Shell σ} {tr : List (Moment σ)} {r : Except ShellError Unit}
    (hs : L s) (hi : C.inv s) (hfit : C.fit c.binding) (hframe : s.stack.current = .ok c.frame)
    (hargs : List.Forall₂ C.Fetched c.binding.profile.params c.args.values)
    (h : (Eval.enter nested c).Runs s tr r t) : C.Holds s tr (failureOf r) t := by
  obtain ⟨tr', hbody, rfl⟩ := runs_note_bind.mp h
  have hnote : C.Reaches s [⟨s, some (.call c)⟩] s := by
    refine (Reaches.refl hi).snoc (hL.bounded hs) (.refl s) hi ?_
    intro c' hc'
    cases hc'
    exact hframe
  have hcall := hC.calls hi hfit hframe hargs
  rcases runs_bind.mp hbody with ⟨tr₁, v?, u, tr₂, hrun, hrest, rfl⟩ | ⟨e, hrun, rfl⟩
  · have hu := hC.perform hL hnested _ hs hnote hcall hrun
    cases v? with
    | none =>
        obtain ⟨rfl, rfl, rfl⟩ := runs_pure.mp hrest
        simpa using hu
    | some v =>
        -- The answer is one more line, written when the command has ended.
        obtain ⟨rfl, rfl, rfl⟩ := runs_modify.mp hrest
        have hinv : C.inv (u.emit .normal v.display) := hC.inv_congr hu.inv (u.sameSetup_emit _)
        have hanswer : C.Holds u [⟨u.emit .normal v.display, none⟩] none (u.emit .normal v.display) :=
          ⟨(Reaches.refl hu.inv).snoc (hL.bounded (hL.sameLevel hs hu.level)) ⟨rfl, rfl, rfl⟩ hinv
            (framed_of_none _), hC.answer hu.inv⟩
        simpa using hu.trans hC hanswer
  · exact hC.perform hL hnested _ hs hnote hcall hrun

/-- States in which a statement may run: a text may be evaluated, also with one more call in flight. -/
def Running (L : Shell σ → Prop) (s : Shell σ) : Prop :=
  L s ∧ ∀ frame, L (s.atLevel s.depth (s.stack.push frame))

omit hC hnested in
theorem nestable_running : Nestable (Running L) where
  bounded h := hL.bounded h.1
  sameLevel := by
    rintro s t ⟨hs, hpush⟩ hl
    refine ⟨hL.sameLevel hs hl, ?_⟩
    intro frame
    refine hL.sameLevel (hpush frame) ⟨?_, ?_, ?_⟩
    · exact hl.depth
    · simp [Shell.atLevel, hl.stack]
    · exact hl.config

/-- A call leaves the level as it was, however it ends: whatever runs under its frame gives the stack
    back with the frame on top, and that frame is what is popped. -/
theorem Lawful.dispatch (frame : Frame) : C.Meets (Running L) (Eval.dispatch nested frame) := by
  intro s tr r t hs hi h
  obtain ⟨tr₁, hrest, rfl⟩ := runs_modify_bind.mp h
  obtain ⟨tr₂, outcome, u, tr₃, hcall, hend, rfl⟩ := runs_attempt_bind.mp hrest
  obtain ⟨tr₄, hlift, rfl⟩ := runs_modify_bind.mp hend
  obtain ⟨rfl, rfl, rfl⟩ := runs_lift.mp hlift
  have hLp := hs.2 frame
  have hip := hC.inv_congr hi (s.sameSetup_atLevel s.depth (s.stack.push frame))
  have hu : C.Holds (s.atLevel s.depth (s.stack.push frame)) tr₂ (failureOf r) u := by
    rcases runs_bind.mp hcall with ⟨tr₅, ⟨b, args⟩, v, tr₆, hprep, hent, rfl⟩ | ⟨e, hprep, rfl⟩
    · obtain ⟨hv, hcallee⟩ := hC.prepare hL hnested hLp hip hprep
      obtain ⟨hfit, hargs⟩ := hcallee b args rfl
      refine hv.trans hC (hC.enter hL hnested (hL.sameLevel hLp hv.level) hv.inv hfit ?_ hargs hent)
      rw [hv.level.stack]
      rfl
    · exact (hC.prepare hL hnested hLp hip hprep).1
  -- The frame on top is still the one that was pushed.
  have hl : s.SameLevel (u.atLevel u.depth u.stack.pop?.2) := by
    refine ⟨hu.level.depth, ?_, hu.level.config⟩
    have := hu.level.stack
    simp only [Shell.atLevel] at this ⊢
    rw [this, CallStack.pop?_push]
  have hiu := hC.inv_congr hu.inv (u.sameSetup_atLevel u.depth u.stack.pop?.2)
  refine ⟨⟨hl, hiu, ?_⟩, hC.enclose hu.rel⟩
  intro m hm
  -- The two moments of the frame itself, and between them those of the call.
  rcases List.mem_cons.mp hm with rfl | hm
  · exact ⟨hip, hL.bounded hLp, framed_of_none _⟩
  · rcases List.mem_append.mp hm with hm | hm
    · exact hu.moments m hm
    · cases List.mem_singleton.mp hm
      exact ⟨hiu, hl.bounded (hL.bounded hs.1), framed_of_none _⟩

/-! ## Statements -/

theorem Lawful.runStatement (tokens : List Token) :
    C.Meets (Running L) (Eval.runStatement nested tokens) := by
  have hresolve : C.Meets (Running L) (tokens.mapM (Eval.resolveToken nested)) :=
    (hC.resolveTokens hL hnested tokens).mono And.left
  apply hresolve.bind hC (nestable_running hL)
  intro words
  -- Only a statement whose first token has a text calls anything.
  split
  · exact .pure hC _
  · split
    · exact .pure hC _
    · exact hC.dispatch hL hnested _

theorem Lawful.runStatements (statements : List (List Token)) :
    C.Meets (Running L) (statements.forM (Eval.runStatement nested)) := by
  induction statements with
  | nil => exact .pure hC _
  | cons tokens statements ih =>
      have hfirst := hC.runStatement hL hnested tokens
      exact hfirst.bind hC (nestable_running hL) fun _ => ih

/-- A text whose end cannot be read fails behind its last statement. -/
theorem Lawful.runProgram (cs : List Char) :
    C.Meets (Running L) (Eval.runProgram nested (.ofChars cs)) := by
  have hrun := hC.runStatements hL hnested (Program.ofChars cs).statements
  apply hrun.bind hC (nestable_running hL)
  intro _
  split
  · next e he =>
    obtain ⟨c, rfl⟩ := Program.failure_ofChars he
    exact .throw hC (by simp)
  · exact .pure hC _

end Nested

/-! ## Levels -/

/-- States from which this many levels are left. -/
structure Within (levels : Nat) (s : Shell σ) : Prop where
  left : s.depth + levels = s.config.maxDepth
  calls : s.stack.depth ≤ s.depth

theorem nestable_within (levels : Nat) : Nestable (Within levels : Shell σ → Prop) where
  bounded h := ⟨h.calls, by have := h.left; omega⟩
  sameLevel := by
    rintro s t ⟨hleft, hcalls⟩ hl
    refine ⟨?_, ?_⟩
    · rw [hl.depth, hl.config]
      exact hleft
    · rw [hl.stack, hl.depth]
      exact hcalls

/-- A level deeper, a statement may run: its call is covered by the level. -/
theorem Within.running {levels : Nat} {s : Shell σ} (hs : Within (levels + 1) s) :
    Running (Within levels) (s.atLevel (s.depth + 1) s.stack) := by
  obtain ⟨hleft, hcalls⟩ := hs
  refine ⟨⟨?_, ?_⟩, fun frame => ⟨?_, ?_⟩⟩ <;> simp only [Shell.atLevel, CallStack.depth_push] <;> omega

/-- A failure that is reported and passed on as one that has been. -/
theorem Lawful.abort (hC : C.Lawful) {s t : Shell σ} {tr : List (Moment σ)} {e : ShellError}
    (hb : s.Bounded) (h : C.Holds s tr (some e) t) :
    C.Holds s (tr ++ [⟨t.report e, none⟩]) (some .aborted) (t.report e) := by
  have hinv := hC.inv_congr h.inv (t.sameSetup_report e)
  exact ⟨h.toReaches.snoc hb (t.sameLevel_report e) hinv (framed_of_none _), hC.report h.inv h.rel⟩

/-- Every evaluation keeps a lawful contract. The induction is on the levels that are left; each level
    hands the evaluator of the next one to the steps above. -/
theorem Lawful.evaluateWithin (hC : C.Lawful) (levels : Nat) (text : String) :
    C.Meets (Within levels) (Eval.evaluateWithin levels text : Eval σ Unit) := by
  induction levels generalizing text with
  | zero =>
      -- The text is not looked at; the limit is the failure.
      intro s tr r t hs hi h
      rw [Eval.evaluateWithin, runs_get_bind, runs_abort] at h
      obtain ⟨rfl, rfl, rfl⟩ := h
      have hfail : C.Holds s [] (some (.recursionLimit s.config.maxDepth)) s :=
        (Holds.refl hC hi).fail hC (by simp)
      exact hC.abort ((nestable_within 0).bounded hs) hfail
  | succ levels ih =>
      intro s tr r t hs hi h
      rw [Eval.evaluateWithin, runs_get_bind] at h
      obtain ⟨tr₁, hbody, rfl⟩ := runs_modify_bind.mp h
      obtain ⟨tr₂, outcome, u, tr₃, hrun, hrest, rfl⟩ := runs_attempt_bind.mp hbody
      obtain ⟨tr₄, hend, rfl⟩ := runs_modify_bind.mp hrest
      have hdeeper := hs.running
      have hi' := hC.inv_congr hi (s.sameSetup_atLevel (s.depth + 1) s.stack)
      have hu := hC.runProgram (nestable_within levels) ih text.toList hdeeper hi' hrun
      have hl : s.SameLevel (u.atLevel s.depth u.stack) := ⟨rfl, hu.level.stack, hu.level.config⟩
      have hiu := hC.inv_congr hu.inv (u.sameSetup_atLevel s.depth u.stack)
      have hbounded := (nestable_within (levels + 1)).bounded hs
      -- What has been kept when the level is left, whatever the outcome.
      have hleft : C.Holds s (⟨s.atLevel (s.depth + 1) s.stack, none⟩ ::
          (tr₂ ++ [⟨u.atLevel s.depth u.stack, none⟩])) (failureOf outcome)
          (u.atLevel s.depth u.stack) := by
        refine ⟨⟨hl, hiu, ?_⟩, hC.enclose hu.rel⟩
        intro m hm
        rcases List.mem_cons.mp hm with rfl | hm
        · exact ⟨hi', (nestable_within levels).bounded hdeeper.1, framed_of_none _⟩
        · rcases List.mem_append.mp hm with hm | hm
          · exact hu.moments m hm
          · cases List.mem_singleton.mp hm
            exact ⟨hiu, hl.bounded hbounded, framed_of_none _⟩
      cases outcome with
      | ok _ =>
          obtain ⟨rfl, rfl, rfl⟩ := runs_pure.mp hend
          exact hleft
      | error e =>
          obtain ⟨rfl, rfl, rfl⟩ := runs_abort.mp hend
          have habort := hC.abort hbounded hleft
          rw [List.cons_append, List.append_assoc] at habort
          exact habort

/-! ## Bounded shells -/

theorem nestable_bounded : Nestable (Shell.Bounded : Shell σ → Prop) where
  bounded h := h
  sameLevel h hl := hl.bounded h

/-- Every evaluation of a text keeps a lawful contract, whatever evaluations it is part of. -/
theorem Lawful.evalBlock (hC : C.Lawful) (text : String) :
    C.Meets Shell.Bounded (Shell.evalBlock text : Eval σ Unit) := by
  intro s tr r t hs hi h
  have hlevels := hs.levels
  refine hC.evaluateWithin (s.config.maxDepth - s.depth) text ⟨?_, hs.calls⟩ hi (runs_get_bind.mp h)
  omega

end Contract
end CommandShell
