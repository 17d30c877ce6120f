import CommandShell.Shell.State

/-!
# `CommandShell.Shell.Eval` — evaluations and their runs

An evaluation reads and changes the shell step by step and may fail; a failure keeps the changes made
before it. It is known by what it leaves behind (`Eval.exec`) and by the moments it passes through on the
way (`Eval.trace`), so that what holds during an evaluation can be spoken of, and not only what holds
when it has ended. Every evaluation is put together from the steps below; each says both of itself.

## Contents
- `Call`, `Note` and `Moment`, what a run shows on its way.
- `Eval` with its monad, its steps and `Eval.attempt`.
- `Eval.run`, an evaluation as a function on the state.
- `Eval.visits` and `Eval.notes`, two readings of the trace.
-/

namespace CommandShell

/-! ## Moments -/

/-- A call about to run: the frame it was dispatched with, the binding of its name and the converted
    arguments. -/
structure Call (σ : Type) where
  frame : Frame
  binding : Binding σ
  args : Args

/-- What an evaluation is about to do. A note changes nothing; it marks a place in the run. -/
inductive Note (σ : Type) where
  /-- It runs a binding. -/
  | call (c : Call σ)
  /-- It takes the last line of output as the result of a sub-evaluation that began at `start`. -/
  | take (expression : String) (start : Shell σ)

/-- A moment of a run: the shell after a change, or as it is when a note is made. -/
structure Moment (σ : Type) where
  shell : Shell σ
  note? : Option (Note σ) := none

/-! ## Evaluations -/

/-- An evaluation. -/
structure Eval (σ α : Type) where
  /-- The outcome and the shell afterwards. -/
  exec : Shell σ → Except ShellError α × Shell σ
  /-- The moments behind the start, in order. -/
  trace : Shell σ → List (Moment σ)

namespace Eval

variable {σ α β : Type}

/-- The evaluation that does nothing and has the given outcome. -/
def done (outcome : Except ShellError α) : Eval σ α where
  exec s := (outcome, s)
  trace _ := []

/-- Goes on with the outcome of an evaluation, whether it failed or not. -/
def andThen (x : Eval σ α) (f : Except ShellError α → Eval σ β) : Eval σ β where
  exec s :=
    let (outcome, t) := x.exec s
    (f outcome).exec t
  trace s :=
    let (outcome, t) := x.exec s
    x.trace s ++ (f outcome).trace t

instance : Monad (Eval σ) where
  pure a := done (.ok a)
  bind x f := x.andThen fun
    | .ok a => f a
    | .error e => done (.error e)

instance : MonadStateOf (Shell σ) (Eval σ) where
  get := { exec := fun s => (.ok s, s), trace := fun _ => [] }
  set t := { exec := fun _ => (.ok (), t), trace := fun _ => [⟨t, none⟩] }
  modifyGet f := { exec := fun s => (.ok (f s).1, (f s).2), trace := fun s => [⟨(f s).2, none⟩] }

instance : MonadExceptOf ShellError (Eval σ) where
  throw e := done (.error e)
  tryCatch x handle := x.andThen fun
    | .ok a => done (.ok a)
    | .error e => handle e

instance : MonadLift (Except ShellError) (Eval σ) where
  monadLift := done

/-- Makes a note. -/
def note (n : Note σ) : Eval σ Unit where
  exec s := (.ok (), s)
  trace s := [⟨s, some n⟩]

/-- Runs an evaluation and answers with its outcome, so that a failure does not end what follows. -/
def attempt (x : Eval σ α) : Eval σ (Except ShellError α) :=
  x.andThen fun outcome => done (.ok outcome)

/-- Reports a failure and ends the evaluation, which from there on only has to be left. -/
def abort (e : ShellError) : Eval σ α := do
  modify (·.report e)
  throw .aborted

/-- An evaluation as a function on the state of the shell. -/
def run (x : Eval σ α) : StateM (Shell σ) (Except ShellError α) :=
  x.exec

/-! ## Reading a run -/

/-- Every state that a run passes through, its start and its end included. -/
def visits (x : Eval σ α) (s : Shell σ) : List (Shell σ) :=
  s :: (x.trace s).map (·.shell) ++ [(x.exec s).2]

/-- The notes of a run, each with the state it is made in. -/
def notes (x : Eval σ α) (s : Shell σ) : List (Note σ × Shell σ) :=
  (x.trace s).filterMap fun m => m.note?.map (·, m.shell)

end Eval
end CommandShell
