import CommandShell.Proofs.Evaluation.Passage
import CommandShell.Proofs.Reading.Statement

/-!
# `CommandShell.Proofs.Evaluation.Program` — evaluating programs

A text is evaluated as the program that is read from it, so texts with the same statements do the same.
This module speaks of the evaluation of a program: what it is made of, and that it goes on behind some of
its statements as the rest of them does on its own.

What a run shows is its outcome, the state it leaves, and its notes. The moments at which it enters and
leaves a level are no part of that.

## Contents
- `Eval.Agree`, two evaluations that show the same from a state.
- `Eval.evaluateProgram`, with `Eval.evaluateWithin_eq` and what it shows in terms of its statements.
- `Eval.runProgram_cons` and `Eval.runProgram_append`, and that statements without tokens do nothing.
- `Eval.evaluateWithin_of_readsAs`, a text with one statement.
- `Eval.agree_evaluateProgram_append`, a program behind another one.
-/

namespace CommandShell
namespace Eval

variable {σ α β : Type}

/-! ## What a run shows -/

/-- From this state the evaluations have the same outcome, leave the same state and make the same
    notes on the way. -/
structure Agree (s : Shell σ) (x y : Eval σ α) : Prop where
  exec : x.exec s = y.exec s
  notes : x.notes s = y.notes s

/-- What a sequence does where its first part ends. -/
theorem exec_bind (x : Eval σ α) (f : α → Eval σ β) (s : Shell σ) :
    (x >>= f).exec s =
      match x.exec s with
      | (.ok a, t) => (f a).exec t
      | (.error e, t) => (.error e, t) := by
  rcases hx : x.exec s with ⟨r, t⟩
  simp only [bind, andThen, hx]
  cases r <;> rfl

theorem notes_bind (x : Eval σ α) (f : α → Eval σ β) (s : Shell σ) :
    (x >>= f).notes s = x.notes s ++
      match x.exec s with
      | (.ok a, t) => (f a).notes t
      | (.error _, _) => [] := by
  rcases hx : x.exec s with ⟨r, t⟩
  simp only [bind, andThen, notes, hx, List.filterMap_append]
  cases r <;> rfl

theorem Agree.symm {s : Shell σ} {x y : Eval σ α} (h : Agree s x y) : Agree s y x :=
  ⟨h.exec.symm, h.notes.symm⟩

theorem Agree.trans {s : Shell σ} {x y z : Eval σ α} (h : Agree s x y) (h' : Agree s y z) :
    Agree s x z :=
  ⟨h.exec.trans h'.exec, h.notes.trans h'.notes⟩

/-- What follows an evaluation matters in the state alone that the evaluation leaves without failure. -/
theorem agree_bind {s : Shell σ} {x : Eval σ α} {f g : α → Eval σ β}
    (h : ∀ a t, x.exec s = (.ok a, t) → Agree t (f a) (g a)) : Agree s (x >>= f) (x >>= g) := by
  constructor
  · rw [exec_bind, exec_bind]
    rcases hx : x.exec s with ⟨_ | a, t⟩
    · rfl
    · exact (h a t hx).exec
  · rw [notes_bind, notes_bind]
    rcases hx : x.exec s with ⟨_ | a, t⟩
    · rfl
    · exact congrArg (x.notes s ++ ·) (h a t hx).notes

/-- What agrees with an evaluation may stand in its place in front of another one. -/
theorem Agree.bind {s : Shell σ} {x y : Eval σ α} (h : Agree s x y) (f : α → Eval σ β) :
    Agree s (x >>= f) (y >>= f) := by
  constructor
  · rw [exec_bind, exec_bind, h.exec]
  · rw [notes_bind, notes_bind, h.exec, h.notes]

theorem exec_get_bind (f : Shell σ → Eval σ β) (s : Shell σ) :
    (get >>= f : Eval σ β).exec s = (f s).exec s := rfl

theorem exec_note_bind (n : Note σ) (f : Unit → Eval σ β) (s : Shell σ) :
    (note n >>= f).exec s = (f ()).exec s := rfl

theorem exec_attempt (x : Eval σ α) (s : Shell σ) :
    (attempt x).exec s = (.ok (x.exec s).1, (x.exec s).2) := rfl

theorem notes_attempt (x : Eval σ α) (s : Shell σ) : (attempt x).notes s = x.notes s := by
  show ((x.trace s ++ []).filterMap _) = _
  rw [List.append_nil]
  rfl

/-! ## Programs -/

/-- Goes back to a depth with the outcome of what ran below it; a failure is reported. -/
def leaveLevel (depth : Nat) (outcome : Except ShellError Unit) : Eval σ Unit := do
  modify fun s => { s with depth }
  match outcome with
  | .ok () => return ()
  | .error e => abort e

/-- Evaluates a program with a number of levels left, as a text with its statements is evaluated. -/
def evaluateProgram : Nat → Program → Eval σ Unit
  | 0, _ => do abort (.recursionLimit (← get).config.maxDepth)
  | levels + 1, p => do
      let depth := (← get).depth
      modify fun s => { s with depth := depth + 1 }
      attempt (runProgram (evaluateWithin levels) p) >>= leaveLevel depth

/-- A text is evaluated as its program. -/
theorem evaluateWithin_eq (levels : Nat) (text : String) :
    (evaluateWithin levels text : Eval σ Unit) = evaluateProgram levels (.ofChars text.toList) := by
  cases levels <;> rfl

/-- The state in which the statements of a text run. -/
def deeper (s : Shell σ) : Shell σ :=
  s.atLevel (s.depth + 1) s.stack

/-- The outcome and the state in which a level is left when its statements have ended. -/
def leave (depth : Nat) : Except ShellError Unit × Shell σ → Except ShellError Unit × Shell σ
  | (.ok (), u) => (.ok (), u.atLevel depth u.stack)
  | (.error e, u) => (.error .aborted, (u.atLevel depth u.stack).report e)

theorem exec_evaluateProgram_succ (levels : Nat) (p : Program) (s : Shell σ) :
    (evaluateProgram (levels + 1) p).exec s =
      leave s.depth ((runProgram (evaluateWithin levels) p).exec (deeper s)) := by
  show (attempt (runProgram (evaluateWithin levels) p) >>= leaveLevel s.depth).exec (deeper s) = _
  rw [exec_bind, exec_attempt]
  rcases (runProgram (evaluateWithin levels) p).exec (deeper s) with ⟨_ | _, u⟩ <;> rfl

/-- Entering and leaving a level makes no notes. -/
theorem notes_evaluateProgram_succ (levels : Nat) (p : Program) (s : Shell σ) :
    (evaluateProgram (levels + 1) p).notes s =
      (runProgram (evaluateWithin levels) p).notes (deeper s) := by
  show (attempt (runProgram (evaluateWithin levels) p) >>= leaveLevel s.depth).notes (deeper s) = _
  rw [notes_bind, exec_attempt, notes_attempt]
  rcases (runProgram (evaluateWithin levels) p).exec (deeper s) with ⟨_ | _, u⟩ <;>
    exact List.append_nil _

/-! ## Statements in order -/

section Statements

variable (nested : String → Eval σ Unit)

/-- A statement without tokens does nothing. -/
theorem runStatement_nil : runStatement nested [] = pure () := by
  rw [runStatement, List.mapM_nil, pure_bind]

theorem runStatements_gap {gap : List (List Token)} (hgap : ∀ tokens ∈ gap, tokens = []) :
    gap.forM (runStatement nested) = pure () := by
  induction gap with
  | nil => rfl
  | cons tokens gap ih =>
      rw [List.forall_mem_cons] at hgap
      obtain ⟨rfl, hgap⟩ := hgap
      rw [List.forM_eq_forM, List.forM_cons, runStatement_nil, pure_bind]
      exact ih hgap

/-- The first statement of a program runs, and then the rest of the program. -/
theorem runProgram_cons (tokens : List Token) (p : Program) :
    runProgram nested (p.cons tokens) = runStatement nested tokens >>= fun _ => runProgram nested p := by
  rw [runProgram, Program.cons, List.forM_eq_forM, List.forM_cons, bind_assoc]
  rfl

/-- Statements that do nothing may be left out. -/
theorem runProgram_blank (p : Program) : runProgram nested (p.cons []) = runProgram nested p := by
  rw [runProgram_cons, runStatement_nil, pure_bind]

/-- A program without failure, statements that do nothing and another program, in order. -/
theorem runProgram_append {p q : Program} {gap : List (List Token)} (hp : p.failure? = none)
    (hgap : ∀ tokens ∈ gap, tokens = []) :
    runProgram nested ⟨p.statements ++ gap ++ q.statements, q.failure?⟩ =
      runProgram nested p >>= fun _ => runProgram nested q := by
  have hfirst : runProgram nested p = p.statements.forM (runStatement nested) := by
    rw [runProgram, hp]
    exact bind_pure _
  have hnothing := runStatements_gap nested hgap
  rw [hfirst, runProgram, runProgram]
  rw [List.forM_eq_forM] at hnothing ⊢
  simp only [List.forM_append, bind_assoc, hnothing, pure_bind]

end Statements

/-- A text that is read as one statement is evaluated as the tokens of the statement. An empty text has
    no statement, but that is the same as one without tokens. -/
theorem evaluateWithin_of_readsAs (levels : Nat) {text : String} {tokens : List Token}
    (h : ReadsAs text.toList tokens []) :
    (evaluateWithin levels text : Eval σ Unit) = evaluateProgram levels ⟨[tokens], none⟩ := by
  rw [evaluateWithin_eq]
  by_cases hempty : text.toList = []
  · rw [hempty] at h ⊢
    obtain ⟨rfl, -⟩ := h.unique readsAs_nil
    rw [Program.ofChars_nil]
    cases levels with
    | zero => rfl
    | succ levels =>
        have hblank := runProgram_blank (evaluateWithin levels : String → Eval σ Unit) ⟨[], none⟩
        rw [Program.cons] at hblank
        rw [evaluateProgram, evaluateProgram, hblank]
  · rw [Program.ofChars_of_readsAs hempty h, Program.ofChars_nil]
    rfl

/-- At the depth at which the first program has been left, the other one runs in the state in which the
    statements of the first have ended. -/
theorem deeper_atLevel {s u : Shell σ} (h : (deeper s).SameLevel u) :
    deeper (u.atLevel s.depth u.stack) = u := by
  have hdepth : u.depth = s.depth + 1 := h.depth
  simp only [deeper, Shell.atLevel, ← hdepth]

/-- Programs that are put together do what the first one and then the other one does. -/
theorem agree_evaluateProgram_append (levels : Nat) {p : Program} {gap : List (List Token)}
    (hp : p.failure? = none) (hgap : ∀ tokens ∈ gap, tokens = []) (q : Program) (s : Shell σ) :
    Agree s (evaluateProgram levels ⟨p.statements ++ gap ++ q.statements, q.failure?⟩)
      (evaluateProgram levels p >>= fun _ => evaluateProgram levels q) := by
  cases levels with
  | zero => exact ⟨rfl, rfl⟩
  | succ levels =>
      have hend := keepsLevel_runProgram levels p
        ((runProgram (evaluateWithin levels) p).runs_self (deeper s))
      constructor
      · rw [exec_evaluateProgram_succ, runProgram_append _ hp hgap, exec_bind, exec_bind,
          exec_evaluateProgram_succ]
        rcases hrun : (runProgram (evaluateWithin levels) p).exec (deeper s) with ⟨_ | _, u⟩
        · rfl
        · rw [hrun] at hend
          simp only [leave]
          rw [exec_evaluateProgram_succ, deeper_atLevel hend]
          rfl
      · rw [notes_evaluateProgram_succ, runProgram_append _ hp hgap, notes_bind, notes_bind,
          exec_evaluateProgram_succ, notes_evaluateProgram_succ]
        rcases hrun : (runProgram (evaluateWithin levels) p).exec (deeper s) with ⟨_ | _, u⟩
        · rfl
        · rw [hrun] at hend
          simp only [leave]
          rw [notes_evaluateProgram_succ, deeper_atLevel hend]

end Eval
end CommandShell
